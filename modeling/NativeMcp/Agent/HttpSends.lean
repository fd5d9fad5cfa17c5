import NativeMcp.Agent.HttpAttempts
import NativeMcp.Agent.ProductionEndpoints

/-!
# Sending over HTTP

The loops of the two transports, with `_one_attempt` in the place of an arbitrary outcome; before each attempt on a
production endpoint its host is resolved again.  The loops do what they do over any outcomes (`SendCorrect`), what they
post is posted by their attempts, and a response that they return is the whole body of one of the peers.
-/

namespace NativeMcp.Agent

namespace Http

/-! ### Attempts -/

/-- The clock, what the attempts meet, and what the resolver answers at each of them. -/
structure Network where
  advance : Nat → Rat
  peer : Nat → Peer
  resolver : Nat → Resolver

/-- What the `try` of the loop makes of a fault. -/
def Fault.outcome : Fault → Outcome
  | .provider classification => .failed (failure classification none)
  | .certificate => .certificate
  | .timeout => .timeout
  | .incompleteRead | .connection => .connection
  | .malformed => .malformed

/-- What has come of an attempt. -/
def outcomeOf : Ending Fault Outcome → Outcome
  | .returned outcome => outcome
  | .raised fault => fault.outcome
  | .suspended => .malformed

/-- An exception as a fault. -/
def Fault.ofRaised : Raised → Fault
  | .provider classification => .provider classification
  | .other => .malformed

/-- What a loop does as the attempt of this number, given its deadline. -/
abbrev Attempts := Nat → Rat → Program Wire Fault Outcome

section

variable (net : Network) (limits : Limits) (endpoint : ValidatedEndpoint) (body : Bytes)

/-- The attempts of `LoopbackFakeTransport.send`. -/
def loopbackAttempts : Attempts := fun k deadlineAt =>
  oneAttempt net.advance limits deadlineAt (loopbackAttempt endpoint body) (net.peer k)

/-- The endpoint of one attempt: that of a production endpoint is resolved again. -/
def attemptEndpoint (U : AddressLibrary) (k : Nat) : Except Raised ValidatedEndpoint :=
  if endpoint.loopbackOnly then .ok endpoint else resolveProductionTransportEndpoint U endpoint (net.resolver k)

/-- The attempts of `OpenAICompatibleTransport._send`. -/
def openAiAttempts (U : AddressLibrary) (credential : Option Str) (correlationId : Str) : Attempts :=
  fun k deadlineAt => do
    let e ← Program.lift ((attemptEndpoint net endpoint U k).mapError Fault.ofRaised)
    oneAttempt net.advance limits deadlineAt (openAiAttempt e body credential correlationId) (net.peer k)

end

/-! ### The loops -/

/-- The state of a loop, and what has been posted. -/
structure Delivery where
  send : SendState
  posts : List PostRequest := []

/-- A part of a loop that posts nothing. -/
def onSend {α : Type} (x : Program SendState SendError α) : Program Delivery SendError α :=
  Program.zoom Delivery.send (fun send d => { d with send }) x

/-- The surroundings of a loop whose attempts are made over the network. -/
def Network.surroundings (net : Network) : Surroundings := ⟨net.advance, fun _ => .malformed⟩

/-- The transport, with no response. -/
def silent {R : Type} (t : Transport R) : Transport Unit where
  accept body := (t.accept body).map fun _ => ()
  certificate := t.certificate
  alwaysPauses := t.alwaysPauses
  expired := t.expired

section

variable {R : Type} (net : Network) (attempts : Attempts) (t : Transport R) (limits : Limits)

/-- An attempt of the loop. -/
def tryAttempt (k : Nat) (deadlineAt : Rat) : Program Delivery SendError Outcome := fun d =>
  let r := attempts k deadlineAt { now := d.send.now, readings := d.send.readings }
  (.returned (outcomeOf r.1), {
    send := { d.send.attempt (outcomeOf r.1) with now := r.2.now, readings := r.2.readings }
    posts := d.posts ++ r.2.requests })

/-- The loop over the attempts, `n` of which are left. -/
def attemptsOver (deadlineAt : Rat) : Nat → Program Delivery SendError R
  | 0 => Program.raise (timeoutError .retryExhausted)
  | n + 1 => do
    let k := limits.providerAttemptCount - n
    let start ← onSend (clock net.surroundings)
    if deadlineAt ≤ start then Program.raise (timeoutError .totalRequestTimeout)
    else do
      let outcome ← tryAttempt attempts k deadlineAt
      match ← onSend (attemptResult net.surroundings t limits deadlineAt outcome) with
      | .ok response => return response
      | .error classified => do
        onSend (afterFailure net.surroundings (silent t) limits deadlineAt k classified (return ()))
        attemptsOver deadlineAt n

/-- `LoopbackFakeTransport.send` and `OpenAICompatibleTransport._send` once the request has been checked. -/
def sendOver (asFloat : Int → Option Rat) (deadline : PyVal) : Program Delivery SendError R := do
  let now ← onSend (clock net.surroundings)
  let deadlineAt ← Program.lift (effectiveDeadline t limits asFloat deadline now)
  attemptsOver net attempts t limits deadlineAt limits.providerAttemptCount

end

/-! ### What the attempts do -/

/-- What attempts must do: each posts at most one request, one that it may post, and returns nothing but the whole body
of its peer. -/
structure Sound (net : Network) (limits : Limits) (attempts : Attempts) (allowed : Nat → PostRequest → Prop) :
    Prop where
  posts : ∀ k deadlineAt now readings, (attempts k deadlineAt { now, readings }).2.requests.length ≤ 1 ∧
    ∀ p ∈ (attempts k deadlineAt { now, readings }).2.requests, allowed k p
  returned : ∀ k deadlineAt now readings outcome,
    (attempts k deadlineAt { now, readings }).1 = .returned outcome →
      ∃ received, Accepted limits (net.peer k) received outcome

section

variable (net : Network) (limits : Limits) (endpoint : ValidatedEndpoint) (body : Bytes)

private theorem posts_of_prefix {requests : List PostRequest} {p : PostRequest} (h : requests <+: [p]) :
    requests.length ≤ 1 ∧ ∀ q ∈ requests, q = p :=
  ⟨h.length_le, fun _ hq => List.mem_singleton.1 (h.subset hq)⟩

theorem loopbackAttempts_sound : Sound net limits (loopbackAttempts net limits endpoint body)
    fun _ p => p = (loopbackAttempt endpoint body).request where
  posts k deadlineAt now readings :=
    posts_of_prefix (attempt_correct net.advance limits deadlineAt _ (net.peer k) now readings).bounded.requests
  returned k deadlineAt now readings outcome h :=
    ⟨_, ((attempt_correct net.advance limits deadlineAt _ (net.peer k) now readings).returned outcome h).2⟩

theorem openAiAttempts_sound (U : AddressLibrary) (credential : Option Str) (correlationId : Str) :
    Sound net limits (openAiAttempts net limits endpoint body U credential correlationId)
      fun k p => ∃ e, attemptEndpoint net endpoint U k = .ok e ∧
        p = (openAiAttempt e body credential correlationId).request where
  posts k deadlineAt now readings := by
    unfold openAiAttempts
    cases he : attemptEndpoint net endpoint U k with
    | error raised => exact ⟨Nat.zero_le 1, fun p hp => absurd hp List.not_mem_nil⟩
    | ok e =>
      obtain ⟨hlength, hall⟩ := posts_of_prefix (attempt_correct net.advance limits deadlineAt
        (openAiAttempt e body credential correlationId) (net.peer k) now readings).bounded.requests
      exact ⟨hlength, fun p hp => ⟨e, rfl, hall p hp⟩⟩
  returned k deadlineAt now readings outcome h := by
    unfold openAiAttempts at h
    cases he : attemptEndpoint net endpoint U k with
    | error raised =>
      rw [he] at h
      cases h
    | ok e =>
      rw [he] at h
      exact ⟨_, ((attempt_correct net.advance limits deadlineAt _ (net.peer k) now readings).returned outcome h).2⟩

end

/-! ### One round -/

section

variable {R : Type} {t : Transport R} {limits : Limits}

theorem verdict_silent (late : Bool) (outcome : Outcome) :
    (silent t).verdict limits late outcome = (t.verdict limits late outcome).map fun _ => () := by
  cases outcome with
  | response body contentType status header =>
    unfold Transport.verdict silent
    dsimp only
    split
    · rfl
    · split
      · rfl
      · split
        · cases t.accept body <;> rfl
        · rfl
  | _ => rfl

theorem retries_silent {outcome : Outcome} (h : (silent t).Retries limits outcome) : t.Retries limits outcome := by
  obtain ⟨classified, hverdict, hretryable⟩ := h
  rw [verdict_silent] at hverdict
  refine ⟨classified, ?_, hretryable⟩
  cases hown : t.verdict limits false outcome with
  | ok response =>
    rw [hown] at hverdict
    cases hverdict
  | error f =>
    rw [hown] at hverdict
    cases hverdict
    rfl

end

section

variable {R : Type} (net : Network) (attempts : Attempts) (t : Transport R) (limits : Limits) (deadlineAt : Rat)

/-- What the attempt of this number has come to, which began at this time: its outcome and what it has posted. -/
def Made (k : Nat) (start : Rat) (outcome : Outcome) (posts : List PostRequest) : Prop :=
  ∃ readings, outcome = outcomeOf (attempts k deadlineAt { now := start, readings }).1 ∧
    posts = (attempts k deadlineAt { now := start, readings }).2.requests

/-- What may stand between an attempt with this outcome and the next one: nothing, or a sleep. -/
def IsPause (limits : Limits) (deadlineAt : Rat) (outcome : Outcome) (pause : List SendEvent) : Prop :=
  outcome.delay limits = 0 ∧ pause = [] ∨
    ∃ start', start' + (outcome.delay limits : Rat) / 1000 ≤ deadlineAt ∧ pause = [.slept start' (outcome.delay limits)]

/-- How a round may go that begins in this state; `n` attempts are left after it. -/
inductive RoundOver (n : Nat) (d : Delivery) : Ending SendError R × Delivery → Prop
  | late {d' : Delivery} {e : ClassifiedFailure} (hlog : d'.send.log = d.send.log) (hposts : d'.posts = d.posts) :
      RoundOver n d (.raised (.provider e), d')
  | accepted {d' : Delivery} {start : Rat} {outcome : Outcome} {posts : List PostRequest} {response : R}
      (hstart : start < deadlineAt)
      (hmade : Made attempts deadlineAt (limits.providerAttemptCount - n) start outcome posts)
      (hverdict : t.verdict limits false outcome = .ok response)
      (hlog : d'.send.log = d.send.log ++ [.attempted start outcome]) (hposts : d'.posts = d.posts ++ posts) :
      RoundOver n d (.returned response, d')
  | refused {d' : Delivery} {start : Rat} {outcome : Outcome} {posts : List PostRequest} {e : ClassifiedFailure}
      (hstart : start < deadlineAt)
      (hmade : Made attempts deadlineAt (limits.providerAttemptCount - n) start outcome posts)
      (hverdict : ∀ response, t.verdict limits false outcome ≠ .ok response)
      (hlog : d'.send.log = d.send.log ++ [.attempted start outcome]) (hposts : d'.posts = d.posts ++ posts) :
      RoundOver n d (.raised (.provider e), d')
  | again {d' : Delivery} {start : Rat} {outcome : Outcome} {posts : List PostRequest} {pause : List SendEvent}
      (hstart : start < deadlineAt)
      (hmade : Made attempts deadlineAt (limits.providerAttemptCount - n) start outcome posts)
      (hretries : t.Retries limits outcome)
      (hpause : IsPause limits deadlineAt outcome pause)
      (hlog : d'.send.log = d.send.log ++ .attempted start outcome :: pause) (hposts : d'.posts = d.posts ++ posts) :
      RoundOver n d (attemptsOver net attempts t limits deadlineAt n d')

theorem attemptsOver_round (n : Nat) (d : Delivery) :
    RoundOver net attempts t limits deadlineAt n d (attemptsOver net attempts t limits deadlineAt (n + 1) d) := by
  unfold attemptsOver
  rw [Program.bind_apply, show onSend (clock net.surroundings) d =
    (.returned (d.send.read (net.advance d.send.readings)).now,
      { d with send := d.send.read (net.advance d.send.readings) }) from rfl]
  dsimp only
  have hlog : (d.send.read (net.advance d.send.readings)).log = d.send.log := rfl
  generalize d.send.read (net.advance d.send.readings) = w at hlog ⊢
  by_cases hlate : deadlineAt ≤ w.now
  · rw [if_pos hlate]
    exact .late hlog rfl
  have hstart : w.now < deadlineAt := lt_of_not_ge hlate
  rw [if_neg hlate, Program.bind_apply]
  have hmade : Made attempts deadlineAt (limits.providerAttemptCount - n) w.now
      (outcomeOf (attempts (limits.providerAttemptCount - n) deadlineAt { now := w.now, readings := w.readings }).1)
      (attempts (limits.providerAttemptCount - n) deadlineAt { now := w.now, readings := w.readings }).2.requests :=
    ⟨_, rfl, rfl⟩
  unfold tryAttempt
  dsimp only
  generalize attempts (limits.providerAttemptCount - n) deadlineAt { now := w.now, readings := w.readings } = r
    at hmade ⊢
  generalize outcomeOf r.1 = outcome at hmade ⊢
  generalize r.2.requests = posts at hmade ⊢
  obtain ⟨late, w₂, hresult, hsame⟩ := attemptResult_spec net.surroundings t limits deadlineAt outcome
    { w.attempt outcome with now := r.2.now, readings := r.2.readings }
  have hattempted : w₂.log = d.send.log ++ [.attempted w.now outcome] := by
    rw [hsame, ← hlog]
    rfl
  rw [Program.bind_apply]
  unfold onSend
  rw [Program.zoom_apply]
  dsimp only
  rw [hresult]
  dsimp only
  cases hverdict : t.verdict limits late outcome with
  | ok response =>
    dsimp only
    exact .accepted hstart hmade (verdict_eq_ok_iff.1 hverdict) hattempted rfl
  | error f =>
    dsimp only
    have hrefused : ∀ response, t.verdict limits false outcome ≠ .ok response := by
      intro response h
      rw [verdict_eq_ok_iff.2 h] at hverdict
      cases hverdict
    have hsilent : (silent t).verdict limits late outcome = .error f := by
      rw [verdict_silent, hverdict]
      rfl
    rw [Program.bind_apply, Program.zoom_apply]
    dsimp only
    rcases afterFailure_cases hsilent (limits.providerAttemptCount - n) (pure ()) w₂ with
      ⟨e, w₃, heq, hkept⟩ | ⟨hretries, w₃, heq, ⟨hdelay, hkept⟩ | ⟨start', hsleep, hslept⟩⟩
    · rw [heq]
      exact .refused hstart hmade hrefused (hkept.trans hattempted) rfl
    · rw [heq]
      exact .again hstart hmade (retries_silent hretries) (.inl ⟨hdelay, rfl⟩) (hkept.trans hattempted) rfl
    · rw [heq]
      refine .again hstart hmade (retries_silent hretries) (.inr ⟨start', hsleep, rfl⟩) ?_ rfl
      show w₃.log = _
      rw [hslept, hattempted, List.append_assoc]
      rfl

end

/-! ### All rounds -/

/-- The surroundings have the outcomes of this log. -/
def Agrees (env : Surroundings) (log : List SendEvent) : Prop :=
  ∀ before start outcome after, log = before ++ .attempted start outcome :: after →
    outcome = env.outcome (attemptCount before + 1)

/-- The outcome of the attempt with this number. -/
def outcomeAt : List SendEvent → Nat → Outcome
  | [], _ => .malformed
  | .slept .. :: log, k => outcomeAt log k
  | .attempted _ outcome :: log, k => if k ≤ 1 then outcome else outcomeAt log (k - 1)

/-- Every log has surroundings that agree with it. -/
theorem agrees_outcomeAt (advance : Nat → Rat) (log : List SendEvent) : Agrees ⟨advance, outcomeAt log⟩ log := by
  intro before start outcome after hlog
  show outcome = outcomeAt log (attemptCount before + 1)
  rw [hlog]
  clear hlog
  induction before with
  | nil => rfl
  | cons e before ih =>
    cases e with
    | slept start' ms =>
      have hcount : attemptCount (.slept start' ms :: before) = attemptCount before :=
        List.countP_cons_of_neg Bool.false_ne_true
      rw [hcount]
      exact ih
    | attempted start' outcome' =>
      have hcount : attemptCount (.attempted start' outcome' :: before) = attemptCount before + 1 :=
        List.countP_cons_of_pos rfl
      rw [hcount, List.cons_append, outcomeAt, if_neg (by omega), Nat.add_sub_cancel]
      exact ih

/-- An attempt of a log is that of its number. -/
def EventMade (attempts : Attempts) (deadlineAt : Rat) (before : List SendEvent) : SendEvent → Prop
  | .attempted start outcome => ∃ posts, Made attempts deadlineAt (attemptCount before + 1) start outcome posts
  | .slept .. => True

section

variable {R : Type} {net : Network} {attempts : Attempts} {t : Transport R} {limits : Limits} {deadlineAt : Rat}
  {env : Surroundings} {n : Nat} {log : List SendEvent} {allowed : Nat → PostRequest → Prop}

private theorem attemptCount_attempted (log pause : List SendEvent) (start : Rat) (outcome : Outcome)
    (hpause : ∀ e ∈ pause, e.isAttempt = false) :
    attemptCount (log ++ .attempted start outcome :: pause) = attemptCount log + 1 := by
  have hnone : pause.countP SendEvent.isAttempt = 0 := by
    rw [List.countP_eq_zero]
    intro e he
    rw [hpause e he]
    exact Bool.false_ne_true
  unfold attemptCount
  rw [List.countP_append, List.countP_cons_of_pos rfl, hnone]

/-- No attempt is made in a pause. -/
theorem IsPause.events {outcome : Outcome} {pause : List SendEvent} (h : IsPause limits deadlineAt outcome pause) :
    ∀ e ∈ pause, e.isAttempt = false := by
  intro e he
  rcases h with ⟨-, rfl⟩ | ⟨start', -, rfl⟩
  · cases he
  · rw [List.mem_singleton.1 he]
    rfl

variable (net t limits deadlineAt) in
/-- The log grows, and what is posted is posted by the attempts. -/
theorem attemptsOver_grows (hsound : Sound net limits attempts allowed) (n : Nat) (d : Delivery) :
    (∃ later, (attemptsOver net attempts t limits deadlineAt n d).2.send.log = d.send.log ++ later) ∧
    ((∀ p ∈ d.posts, ∃ k, allowed k p) → ∀ p ∈ (attemptsOver net attempts t limits deadlineAt n d).2.posts,
      ∃ k, allowed k p) ∧
    (d.posts.length ≤ attemptCount d.send.log →
      (attemptsOver net attempts t limits deadlineAt n d).2.posts.length ≤
        attemptCount (attemptsOver net attempts t limits deadlineAt n d).2.send.log) := by
  have hposted : ∀ {d d' : Delivery} {k start outcome posts pause}, Made attempts deadlineAt k start outcome posts →
      d'.posts = d.posts ++ posts → d'.send.log = d.send.log ++ .attempted start outcome :: pause →
      (∀ e ∈ pause, e.isAttempt = false) →
      ((∀ p ∈ d.posts, ∃ k, allowed k p) → ∀ p ∈ d'.posts, ∃ k, allowed k p) ∧
      (d.posts.length ≤ attemptCount d.send.log → d'.posts.length ≤ attemptCount d'.send.log) := by
    intro d d' k start outcome posts pause hmade hposts hlog hpause
    obtain ⟨readings, -, rfl⟩ := hmade
    obtain ⟨hlength, hallowed⟩ := hsound.posts k deadlineAt start readings
    constructor
    · intro hall p hp
      rw [hposts] at hp
      rcases List.mem_append.1 hp with hold | hnew
      · exact hall p hold
      · exact ⟨k, hallowed p hnew⟩
    · intro hcount
      rw [hposts, hlog, attemptCount_attempted _ _ _ _ hpause, List.length_append]
      omega
  induction n generalizing d with
  | zero => exact ⟨⟨[], (List.append_nil _).symm⟩, id, id⟩
  | succ n ih =>
    have hround := attemptsOver_round net attempts t limits deadlineAt n d
    generalize attemptsOver net attempts t limits deadlineAt (n + 1) d = result at hround ⊢
    cases hround with
    | late hlog hposts =>
      dsimp only
      rw [hlog, hposts]
      exact ⟨⟨[], (List.append_nil _).symm⟩, id, id⟩
    | accepted hstart hmade hverdict hlog hposts =>
      exact ⟨⟨_, hlog⟩, hposted hmade hposts hlog fun e he => absurd he List.not_mem_nil⟩
    | refused hstart hmade hverdict hlog hposts =>
      exact ⟨⟨_, hlog⟩, hposted hmade hposts hlog fun e he => absurd he List.not_mem_nil⟩
    | again hstart hmade hretries hpause hlog hposts =>
      obtain ⟨hallowed, hcount⟩ := hposted hmade hposts hlog hpause.events
      rename_i d' start outcome posts pause
      obtain ⟨⟨later, hgrows⟩, hallowed', hcount'⟩ := ih d'
      refine ⟨⟨.attempted start outcome :: pause ++ later, ?_⟩, fun h => hallowed' (hallowed h),
        fun h => hcount' (hcount h)⟩
      rw [hgrows, hlog, List.append_assoc]

/-- Every attempt of the log is that of its number. -/
theorem attemptsOver_made (n : Nat) (d : Delivery) (hcount : attemptCount d.send.log + n = limits.providerAttemptCount)
    (h : Monitor.Justified (EventMade attempts deadlineAt) d.send.log) :
    Monitor.Justified (EventMade attempts deadlineAt)
      (attemptsOver net attempts t limits deadlineAt n d).2.send.log := by
  induction n generalizing d with
  | zero => exact h
  | succ n ih =>
    have hnumber : attemptCount d.send.log + 1 = limits.providerAttemptCount - n := by omega
    have hround := attemptsOver_round net attempts t limits deadlineAt n d
    generalize attemptsOver net attempts t limits deadlineAt (n + 1) d = result at hround ⊢
    cases hround with
    | late hlog hposts =>
      dsimp only
      rw [hlog]
      exact h
    | accepted hstart hmade hverdict hlog hposts =>
      dsimp only
      rw [hlog]
      rw [← hnumber] at hmade
      exact h.concat ⟨_, hmade⟩
    | refused hstart hmade hverdict hlog hposts =>
      dsimp only
      rw [hlog]
      rw [← hnumber] at hmade
      exact h.concat ⟨_, hmade⟩
    | again hstart hmade hretries hpause hlog hposts =>
      rename_i d' start outcome posts pause
      rw [← hnumber] at hmade
      have hattempted := h.concat (e := .attempted start outcome) ⟨posts, hmade⟩
      apply ih
      · rw [hlog, attemptCount_attempted _ _ _ _ hpause.events]
        omega
      · rw [hlog]
        rcases hpause with ⟨-, rfl⟩ | ⟨start', -, rfl⟩
        · exact hattempted
        · have hslept := hattempted.concat (e := .slept start' (outcome.delay limits)) trivial
          rw [List.append_assoc] at hslept
          exact hslept

theorem Agrees.outcome {later : List SendEvent} {start : Rat} {outcome : Outcome}
    (h : Agrees env (log ++ .attempted start outcome :: later))
    (hunder : Underway env t limits deadlineAt (n + 1) log) :
    outcome = env.outcome (limits.providerAttemptCount - n) := by
  have hcount := hunder.count
  rw [h log start outcome later rfl]
  congr 1
  omega

/-- By induction on the attempts that are left, in surroundings that agree with the log at the end. -/
theorem attemptsOver_correct (hsound : Sound net limits attempts allowed) (n : Nat) (d : Delivery)
    (hagrees : Agrees env (attemptsOver net attempts t limits deadlineAt n d).2.send.log)
    (h : Underway env t limits deadlineAt n d.send.log) :
    SendCorrect env t limits deadlineAt (attemptsOver net attempts t limits deadlineAt n d).1
      (attemptsOver net attempts t limits deadlineAt n d).2.send.log := by
  induction n generalizing d with
  | zero => exact h.raised _
  | succ n ih =>
    have hround := attemptsOver_round net attempts t limits deadlineAt n d
    generalize attemptsOver net attempts t limits deadlineAt (n + 1) d = result at hround hagrees ⊢
    cases hround with
    | late hlog hposts =>
      rw [hlog]
      exact h.raised _
    | accepted hstart hmade hverdict hlog hposts =>
      rw [hlog] at hagrees ⊢
      have houtcome := hagrees.outcome h
      rw [houtcome] at hverdict ⊢
      exact h.accepted hstart hverdict
    | refused hstart hmade hverdict hlog hposts =>
      rw [hlog] at hagrees ⊢
      have houtcome := hagrees.outcome h
      rw [houtcome] at hverdict ⊢
      exact h.refused hstart hverdict _
    | again hstart hmade hretries hpause hlog hposts =>
      rename_i d' start outcome posts pause
      obtain ⟨⟨later, hgrows⟩, -⟩ := attemptsOver_grows net t limits deadlineAt hsound n d'
      have houtcome : outcome = env.outcome (limits.providerAttemptCount - n) := by
        rw [hgrows, hlog, List.append_assoc, List.cons_append] at hagrees
        exact hagrees.outcome h
      rw [houtcome] at hretries hpause hlog
      apply ih d' hagrees
      rcases hpause with ⟨hdelay, rfl⟩ | ⟨start', hsleep, rfl⟩
      · rw [hlog]
        exact h.retried hstart hretries hdelay
      · rw [hlog]
        exact h.slept hstart hretries hsleep

end

/-! ### What a loop returns -/

/-- How a loop over the network goes and ends: as over some outcomes, which are those of its attempts.  It posts no more
often than it attempts, only what its attempts may post, and returns what is made of the whole body of a peer that has
answered with success and with JSON. -/
structure Delivered {R : Type} (net : Network) (attempts : Attempts) (t : Transport R) (limits : Limits)
    (deadlineAt : Rat) (allowed : Nat → PostRequest → Prop) (r : Ending SendError R × Delivery) : Prop where
  correct : ∃ env, SendCorrect env t limits deadlineAt r.1 r.2.send.log
  made : Monitor.Justified (EventMade attempts deadlineAt) r.2.send.log
  posted : r.2.posts.length ≤ attemptCount r.2.send.log ∧ ∀ p ∈ r.2.posts, ∃ k, allowed k p
  whole : ∀ response, r.1 = .returned response → ∃ k head, (net.peer k).response = .ok head ∧
    200 ≤ head.status ∧ head.status < 300 ∧ head.contentType.any isJsonContentType = true ∧
    (net.peer k).body.length ≤ limits.providerResponseBytes ∧
    (∀ length, head.contentLength = some length → decimalValue length = (net.peer k).body.length) ∧
    t.accept (net.peer k).body = .ok response

section

variable {R : Type} {net : Network} {attempts : Attempts} {t : Transport R} {limits : Limits} {deadlineAt : Rat}
  {allowed : Nat → PostRequest → Prop}

private theorem verdict_response {outcome : Outcome} {response : R}
    (h : t.verdict limits false outcome = .ok response) :
    ∃ body contentType status header, outcome = .response body contentType status header ∧ 200 ≤ status ∧
      status < 300 ∧ contentType.any isJsonContentType = true ∧ t.accept body = .ok response := by
  cases outcome with
  | response body contentType status header =>
    unfold Transport.verdict at h
    dsimp only at h
    by_cases hredirect : 300 ≤ status ∧ status ≤ 399
    · rw [if_pos hredirect] at h
      cases h
    rw [if_neg hredirect] at h
    by_cases hfailed : status < 200 ∨ 300 ≤ status
    · rw [if_pos hfailed] at h
      cases h
    rw [if_neg hfailed] at h
    by_cases hcontent : contentType.any isJsonContentType = true
    · rw [if_pos hcontent] at h
      refine ⟨body, contentType, status, header, rfl, by omega, by omega, hcontent, ?_⟩
      cases haccept : t.accept body with
      | ok response' =>
        rw [haccept] at h
        cases h
        rfl
      | error kind =>
        rw [haccept] at h
        cases h
    · rw [if_neg hcontent] at h
      cases h
  | _ => cases h

/-- An attempt with an acceptable response has the whole body of its peer. -/
theorem Made.whole {k : Nat} {start : Rat} {outcome : Outcome} {posts : List PostRequest} {response : R}
    (h : Made attempts deadlineAt k start outcome posts) (hsound : Sound net limits attempts allowed)
    (hverdict : t.verdict limits false outcome = .ok response) :
    ∃ head, (net.peer k).response = .ok head ∧ 200 ≤ head.status ∧ head.status < 300 ∧
      head.contentType.any isJsonContentType = true ∧ (net.peer k).body.length ≤ limits.providerResponseBytes ∧
      (∀ length, head.contentLength = some length → decimalValue length = (net.peer k).body.length) ∧
      t.accept (net.peer k).body = .ok response := by
  obtain ⟨readings, hmade, -⟩ := h
  obtain ⟨body, contentType, status, header, hresponse, hlow, hhigh, hcontent, haccept⟩ := verdict_response hverdict
  have hreturned := hsound.returned k deadlineAt start readings
  rw [hresponse] at hmade
  generalize attempts k deadlineAt { now := start, readings } = r at hmade hreturned
  obtain ⟨ending, w⟩ := r
  cases ending with
  | returned outcome' =>
    have hsame : Outcome.response body contentType status header = outcome' := hmade
    obtain ⟨received, haccepted⟩ := hreturned outcome' rfl
    rw [← hsame] at haccepted
    obtain ⟨declared, hhead, -, -, -, hbody⟩ := haccepted
    rw [if_neg (by omega)] at hbody
    obtain ⟨hwhole, hlength, hdeclared⟩ := hbody
    rw [hwhole] at hlength hdeclared haccept
    exact ⟨_, hhead, hlow, hhigh, hcontent, hlength, hdeclared, haccept⟩
  | raised fault =>
    have hfault : Outcome.response body contentType status header = fault.outcome := hmade
    cases fault <;> cases hfault
  | suspended => cases hmade

variable (t) in
/-- A whole call. -/
theorem sendOver_delivered (hsound : Sound net limits attempts allowed) (asFloat : Int → Option Rat)
    (deadline : PyVal) (hfloat : ∀ i, deadline = .int i → (asFloat i).isSome = true) (start : Rat) :
    Delivered net attempts t limits (deadlineOf net.surroundings limits asFloat deadline start) allowed
      (sendOver net attempts t limits asFloat deadline ⟨{ now := start }, []⟩) := by
  have hbegin : ∀ env D, Underway env t limits D limits.providerAttemptCount [] := by
    intro env D
    refine ⟨.nil, Nat.zero_add _, .inl rfl, ?_⟩
    intro _ _ hmem
    cases hmem
  unfold sendOver
  rw [Program.bind_apply, show onSend (clock net.surroundings) ⟨{ now := start }, []⟩ =
    (.returned (SendState.read { now := start } (net.advance 0)).now,
      ⟨SendState.read { now := start } (net.advance 0), []⟩) from rfl]
  dsimp only
  cases hdeadline : effectiveDeadline t limits asFloat deadline
      (SendState.read { now := start } (net.advance 0)).now with
  | error e =>
    obtain ⟨classified, rfl⟩ := effectiveDeadline_eq_error hfloat hdeadline
    exact ⟨⟨net.surroundings, (hbegin _ _).raised classified⟩, .nil,
      ⟨Nat.le_refl 0, fun p hp => absurd hp List.not_mem_nil⟩, fun response h => (by cases h)⟩
  | ok D =>
    have hD : D = deadlineOf net.surroundings limits asFloat deadline start := effectiveDeadline_eq_ok hdeadline
    rw [← hD, Program.lift_ok, Program.bind_apply, Program.pure_apply]
    dsimp only
    generalize hd : (⟨SendState.read { now := start } (net.advance 0), []⟩ : Delivery) = d
    have hlog : d.send.log = [] := by
      rw [← hd]
      rfl
    have hposts : d.posts = [] := by rw [← hd]
    have hcorrect : SendCorrect ⟨net.advance, outcomeAt _⟩ t limits D _ _ :=
      attemptsOver_correct hsound limits.providerAttemptCount d
        (agrees_outcomeAt net.advance (attemptsOver net attempts t limits D _ _).2.send.log)
        (by rw [hlog]; exact hbegin _ D)
    have hmade : Monitor.Justified (EventMade attempts D)
        (attemptsOver net attempts t limits D limits.providerAttemptCount d).2.send.log := by
      apply attemptsOver_made
      · rw [hlog]
        exact Nat.zero_add _
      · rw [hlog]
        exact .nil
    obtain ⟨-, hallowed, hcount⟩ := attemptsOver_grows net t limits D hsound limits.providerAttemptCount d
    rw [hposts] at hallowed hcount
    refine ⟨⟨_, hcorrect⟩, hmade, ⟨hcount (Nat.zero_le _), hallowed fun p hp => absurd hp List.not_mem_nil⟩,
      fun response hresponse => ?_⟩
    obtain ⟨before, began, outcome, hlast, hverdict⟩ := hcorrect.returned response hresponse
    obtain ⟨posts, hattempt⟩ := hmade before (.attempted began outcome) [] hlast
    exact ⟨_, hattempt.whole hsound hverdict⟩

end

/-- A text of its own for each address. -/
def addressText : IpAddress → Str
  | .v4 value => [0, value.toNat]
  | .v6 value none => [1, value.toNat]
  | .v6 value (some scope) => 2 :: value.toNat :: scope

def textAddress : Str → Option IpAddress
  | [0, value] => some (.v4 (BitVec.ofNat 32 value))
  | [1, value] => some (.v6 (BitVec.ofNat 128 value) none)
  | 2 :: value :: scope => some (.v6 (BitVec.ofNat 128 value) (some scope))
  | _ => none

theorem textAddress_addressText (a : IpAddress) : textAddress (addressText a) = some a := by
  obtain value | ⟨value, _ | scope⟩ := a <;> simp [addressText, textAddress]

theorem addressText_ne (a : IpAddress) : addressText a ≠ chars "8.8.8.8" := by
  intro h
  have hhead := congrArg List.head? h
  rw [show (chars "8.8.8.8").head? = some 0x38 by decide] at hhead
  obtain value | ⟨value, _ | scope⟩ := a <;> simp [addressText] at hhead

/-- The library on one URL and one address. -/
def productionLibrary : AddressLibrary where
  urlsplit url := if url = chars "https://provider/v1" then
      some ⟨chars "https", chars "provider", chars "/v1", [], [], none, none, some (chars "provider"), none⟩
    else none
  ipAddress text := if text = chars "8.8.8.8" then some (.v4 0x08080808) else textAddress text
  lower s := s
  isSpace _ := false
  mapped := false
  ipAddress_nil := by decide
  lower_scheme _ _ _ := rfl
  isGlobal a := a = .v4 0x08080808
  text a := if a = .v4 0x08080808 then chars "8.8.8.8" else addressText a
  ipAddress_text := by
    intro a
    by_cases ha : a = .v4 0x08080808
    · rw [if_pos ha, if_pos rfl, ha]
    · rw [if_neg ha, if_neg (addressText_ne a), textAddress_addressText]

/-- The first peer asks to wait, and the second one answers byte by byte. -/
def busyNetwork : Network where
  advance _ := 0
  peer k := if k = 1 then { byteByByte with response := .ok ⟨429, none, some (chars "1"), none⟩ } else byteByByte
  resolver _ _ _ := some [some (.inet, chars "8.8.8.8")]

def providerEndpoint : ValidatedEndpoint where
  url := chars "https://provider/v1"
  scheme := chars "https"
  host := chars "provider"
  connectHost := chars "provider"
  port := 443
  path := chars "/v1"
  loopbackOnly := false

/-- The attempts of a call with a credential. -/
def providerAttempts : Attempts :=
  openAiAttempts busyNetwork defaultLimits providerEndpoint [] productionLibrary (some (chars "key")) (chars "req-1")

end Http

end NativeMcp.Agent
