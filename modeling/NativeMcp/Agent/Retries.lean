import Mathlib.Tactic.Linarith
import NativeMcp.Agent.ProviderResponses
import NativeMcp.Lib.Monitor
import NativeMcp.Lib.Program

/-!
# Attempts and retries

Both transports send a request in a loop of attempts.  `decide_retry` tells whether a failed attempt is followed by
another one and after which delay; the loop looks at the clock before an attempt and before it sleeps.  The two loops
differ in few places, which are the fields of `Transport`.  Time is exact; a classified failure keeps what decides
about retries.
-/

namespace NativeMcp.Agent

/-! ### Failures -/

structure ClassifiedFailure where
  classification : FailureClass
  retryAfterMs : Option Nat
  deriving DecidableEq

/-- `failure(…)`: a delay that is too long is dropped. -/
def failure (classification : FailureClass) (retryAfterMs : Option Nat) : ClassifiedFailure :=
  ⟨classification, retryAfterMs.filter (· ≤ 5000)⟩

/-- `ClassifiedFailure.retryable` -/
def ClassifiedFailure.retryable (f : ClassifiedFailure) : Bool :=
  match f.classification with
  | .http408RequestTimeout | .http429RateLimited | .dnsOrConnectionFailure | .connectTimeout | .transient5xx => true
  | _ => false

/-- The classification of a status from 100 to 599. -/
def httpClassification (status : Int) : FailureClass :=
  if status = 400 then .http400InvalidRequest
  else if status = 401 then .http401AuthenticationFailure
  else if status = 403 then .http403AuthorizationFailure
  else if status = 404 then .http404EndpointOrModelNotFound
  else if status = 408 then .http408RequestTimeout
  else if status = 413 then .http413PayloadTooLarge
  else if status = 422 then .http422SemanticRejection
  else if status = 429 then .http429RateLimited
  else if 500 ≤ status then .transient5xx
  else .otherPermanent4xx

/-- `http_failure` -/
def httpFailure (status : Int) (retryAfterMs : Option Nat) : ClassifiedFailure :=
  if 100 ≤ status ∧ status ≤ 599 then failure (httpClassification status) retryAfterMs
  else failure .malformedHttpResponse none

/-! ### `Retry-After` -/

/-- The number that decimal digits write. -/
def decimalValue (digits : Str) : Nat := digits.foldl (fun n c => 10 * n + (c - 0x30)) 0

/-- The milliseconds that a header of decimal seconds asks for. -/
def headerMilliseconds (s : Str) : Option Nat :=
  let whole := s.takeWhile isDigit
  let fraction := (s.dropWhile isDigit).drop 1
  if whole = [] then none
  else if s.dropWhile isDigit = [] then some (decimalValue whole * 1000)
  else if (s.dropWhile isDigit).head? = some 0x2E ∧ fraction ≠ [] ∧ fraction.length ≤ 3 ∧
      fraction.all isDigit = true then
    some (decimalValue whole * 1000 + decimalValue (fraction ++ List.replicate (3 - fraction.length) 0x30))
  else none

/-- `_retry_after` -/
def retryAfter (limits : Limits) (value : Option Str) : Option Nat :=
  ((value.filter fun s => isAscii s && s.length ≤ 16).bind headerMilliseconds).filter (· ≤ limits.retryAfterMs)

/-! ### `decide_retry` -/

structure RetryDecision where
  eligible : Bool
  delayMs : Nat
  deriving DecidableEq

/-- The delay that `decide_retry` grants. -/
def retryDelay (limits : Limits) (classified : ClassifiedFailure) : Nat :=
  let requested := classified.retryAfterMs.getD limits.retryBackoffMs
  let bound := if classified.retryAfterMs.isNone then limits.retryBackoffMs else limits.retryAfterMs
  min requested (min limits.retryAfterMs bound)

def decideRetry (limits : Limits) (classified : ClassifiedFailure) (completedAttempts remainingMs : Nat) :
    RetryDecision :=
  if !classified.retryable then ⟨false, 0⟩
  else if limits.providerAttemptCount ≤ completedAttempts then ⟨false, 0⟩
  else if remainingMs = 0 then ⟨false, 0⟩
  else if remainingMs < retryDelay limits classified then ⟨false, 0⟩
  else ⟨true, retryDelay limits classified⟩

/-- A retry waits as long as the failure asks for, or for the backoff, but no longer than the cap. -/
theorem retryDelay_eq (limits : Limits) (f : ClassifiedFailure) :
    retryDelay limits f = min (f.retryAfterMs.getD limits.retryBackoffMs) limits.retryAfterMs := by
  unfold retryDelay
  cases f.retryAfterMs with
  | none =>
    show min limits.retryBackoffMs (min limits.retryAfterMs limits.retryBackoffMs) = _
    rw [Option.getD_none]
    omega
  | some ms =>
    show min ms (min limits.retryAfterMs limits.retryAfterMs) = _
    rw [Option.getD_some]
    omega

theorem decideRetry_eligible {limits : Limits} {f : ClassifiedFailure} {completed remaining : Nat}
    (h : (decideRetry limits f completed remaining).eligible = true) :
    f.retryable = true ∧ completed < limits.providerAttemptCount ∧
      (decideRetry limits f completed remaining).delayMs = retryDelay limits f := by
  unfold decideRetry at h ⊢
  by_cases hretryable : (!f.retryable) = true
  · rw [if_pos hretryable] at h
    cases h
  by_cases hcount : limits.providerAttemptCount ≤ completed
  · rw [if_neg hretryable, if_pos hcount] at h
    cases h
  by_cases hremaining : remaining = 0
  · rw [if_neg hretryable, if_neg hcount, if_pos hremaining] at h
    cases h
  by_cases hlong : remaining < retryDelay limits f
  · rw [if_neg hretryable, if_neg hcount, if_neg hremaining, if_pos hlong] at h
    cases h
  rw [if_neg hretryable, if_neg hcount, if_neg hremaining, if_neg hlong]
  exact ⟨by simpa using hretryable, Nat.lt_of_not_le hcount, rfl⟩

/-! ### Attempts -/

/-- What comes of one attempt. -/
inductive Outcome where
  | response (body : Bytes) (contentType : Option Str) (status : Int) (retryAfter : Option Str)
  /-- A `ProviderError`. -/
  | failed (classified : ClassifiedFailure)
  /-- The certificate cannot be verified. -/
  | certificate
  /-- A `TimeoutError`. -/
  | timeout
  /-- Another `OSError` or an `HTTPException`. -/
  | connection
  /-- An exception of the interpreter. -/
  | malformed
  deriving DecidableEq

/-- A character that `str.strip` takes off. -/
def isWhitespace (c : Nat) : Bool :=
  (0x9 ≤ c && c ≤ 0xD) || (0x1C ≤ c && c ≤ 0x20) || c == 0x85 || c == 0xA0 || c == 0x1680 ||
    (0x2000 ≤ c && c ≤ 0x200A) || c == 0x2028 || c == 0x2029 || c == 0x202F || c == 0x205F || c == 0x3000

def strip (s : Str) : Str := ((s.dropWhile isWhitespace).reverse.dropWhile isWhitespace).reverse

/-- `content_type.lower().split(";", 1)[0].strip() == "application/json"` -/
def isJsonContentType (contentType : Str) : Bool :=
  strip ((lowerText contentType).takeWhile (· != 0x3B)) == chars "application/json"

/-- What tells the two transports apart. -/
structure Transport (R : Type) where
  /-- What becomes of the body of a response. -/
  accept : Bytes → Except FailureClass R
  certificate : FailureClass
  /-- Whether it sleeps for no time at all. -/
  alwaysPauses : Bool
  /-- A caller's deadline is refused at this time. -/
  expired : Rat → Number → Bool

/-- The class of the failure of which an exception is the sign. -/
def failureClass : Raised → FailureClass
  | .provider classification => classification
  | .other => .malformedHttpResponse

/-- `LoopbackFakeTransport`, for a request with these tools. -/
def LoopbackFakeTransport (L : Library) (limits : Limits) (tools : List AdvertisedTool) :
    Transport ProviderResponse where
  accept body := (parseProviderResponse L limits tools body).mapError failureClass
  certificate := .dnsOrConnectionFailure
  alwaysPauses := false
  expired now deadline := !(Number.finite now).less deadline

/-- `OpenAICompatibleTransport` -/
def OpenAICompatibleTransport : Transport Bytes where
  accept := .ok
  certificate := .tlsVerificationFailure
  alwaysPauses := true
  expired now deadline := deadline.less (.finite now) || deadline == .finite now

section

variable {R : Type} (t : Transport R) (limits : Limits)

/-- The response of an attempt or its failure; `late` tells that the deadline has passed. -/
def Transport.verdict (late : Bool) : Outcome → Except ClassifiedFailure R
  | .response body contentType status header =>
    if 300 ≤ status ∧ status ≤ 399 then .error (failure .redirectRejected none)
    else if status < 200 ∨ 300 ≤ status then .error (httpFailure status (retryAfter limits header))
    else if contentType.any isJsonContentType then (t.accept body).mapError fun kind => failure kind none
    else .error (failure .invalidContentType none)
  | .failed classified => .error classified
  | .certificate => .error (failure t.certificate none)
  | .timeout => .error (failure (if late then .totalRequestTimeout else .readTimeout) none)
  | .connection => .error (failure .dnsOrConnectionFailure none)
  | .malformed => .error (failure .malformedHttpResponse none)

end

/-! ### The loops -/

/-- What the loops raise. -/
inductive SendError where
  | provider (classified : ClassifiedFailure)
  | other
  deriving DecidableEq

inductive SendEvent where
  | attempted (start : Rat) (outcome : Outcome)
  | slept (start : Rat) (milliseconds : Nat)
  deriving DecidableEq

/-- How much later each reading of the clock is than the one before, and what comes of each attempt. -/
structure Surroundings where
  advance : Nat → Rat
  outcome : Nat → Outcome

/-- The time of the last reading, or after the last sleep, and what has been done. -/
structure SendState where
  now : Rat
  readings : Nat := 0
  log : List SendEvent := []

namespace SendState

def read (w : SendState) (advance : Rat) : SendState := { w with now := w.now + advance, readings := w.readings + 1 }

def attempt (w : SendState) (outcome : Outcome) : SendState := { w with log := w.log ++ [.attempted w.now outcome] }

def sleep (w : SendState) (milliseconds : Nat) : SendState :=
  { w with now := w.now + milliseconds / 1000, log := w.log ++ [.slept w.now milliseconds] }

end SendState

def timeoutError (classification : FailureClass) : SendError := .provider (failure classification none)

section

variable {R : Type} (env : Surroundings) (t : Transport R) (limits : Limits)

/-- `self.clock()` -/
def clock : Program SendState SendError Rat := do
  Program.modify fun w => w.read (env.advance w.readings)
  let w ← Program.get
  return w.now

/-- `max(0, int((deadline_at - self.clock()) * 1000))` -/
def remainingMs (deadlineAt now : Rat) : Nat := ((deadlineAt - now) * 1000).floor.toNat

/-- What the `try` of the loop makes of an outcome. -/
def attemptResult (deadlineAt : Rat) (outcome : Outcome) :
    Program SendState SendError (Except ClassifiedFailure R) := do
  match outcome with
  | .timeout => do
    let now ← clock env
    return t.verdict limits (deadlineAt ≤ now) .timeout
  | outcome => return t.verdict limits false outcome

/-- What is raised when an attempt is the last one. -/
def finalError (classified : ClassifiedFailure) (attempt : Nat) : SendError :=
  if classified.retryable ∧ limits.providerAttemptCount ≤ attempt ∧ 1 < limits.providerAttemptCount then
    timeoutError .retryExhausted
  else .provider classified

/-- What the loop does after an attempt that failed; `again` are the attempts that are left. -/
def afterFailure (deadlineAt : Rat) (attempt : Nat) (classified : ClassifiedFailure)
    (again : Program SendState SendError R) : Program SendState SendError R := do
  let now ← clock env
  let decision := decideRetry limits classified attempt (remainingMs deadlineAt now)
  if !decision.eligible then Program.raise (finalError limits classified attempt)
  else if decision.delayMs = 0 ∧ t.alwaysPauses = false then again
  else do
    let now ← clock env
    if deadlineAt - now < decision.delayMs / 1000 then Program.raise (timeoutError .totalRequestTimeout)
    else do
      Program.modify fun w => w.sleep decision.delayMs
      again

/-- The loop over the attempts, `n` of which are left. -/
def attempts (deadlineAt : Rat) : Nat → Program SendState SendError R
  | 0 => Program.raise (timeoutError .retryExhausted)
  | n + 1 => do
    let attempt := limits.providerAttemptCount - n
    let start ← clock env
    if deadlineAt ≤ start then Program.raise (timeoutError .totalRequestTimeout)
    else do
      Program.modify fun w => w.attempt (env.outcome attempt)
      match ← attemptResult env t limits deadlineAt (env.outcome attempt) with
      | .ok response => return response
      | .error classified => afterFailure env t limits deadlineAt attempt classified (attempts deadlineAt n)

/-- `float(deadline)` of a number; `asFloat` is `float` of an integer, `none` where it overflows. -/
def floatOf (asFloat : Int → Option Rat) (deadline : PyVal) (number : Number) : Except SendError Number :=
  match deadline with
  | .int i => (asFloat i).elim (.error .other) fun value => .ok (.finite value)
  | _ => .ok number

/-- `min(deadline_at, float(deadline))` -/
def earlier (deadlineAt : Rat) : Number → Rat
  | .finite value => if value < deadlineAt then value else deadlineAt
  | _ => deadlineAt

/-- The deadline of the loop, at the time at which it is entered. -/
def effectiveDeadline (asFloat : Int → Option Rat) (deadline : PyVal) (now : Rat) : Except SendError Rat :=
  let deadlineAt := now + limits.providerTotalTimeoutMs / 1000
  match deadline with
  | .none => .ok deadlineAt
  | .bool _ => .error (timeoutError .totalRequestTimeout)
  | deadline =>
    match deadline.number? with
    | none => .error (timeoutError .totalRequestTimeout)
    | some number =>
      if t.expired now number then .error (timeoutError .totalRequestTimeout)
      else (floatOf asFloat deadline number).map (earlier deadlineAt)

/-- `LoopbackFakeTransport.send` and `OpenAICompatibleTransport._send` once the request has been checked. -/
def send (asFloat : Int → Option Rat) (deadline : PyVal) : Program SendState SendError R := do
  let now ← clock env
  let deadlineAt ← Program.lift (effectiveDeadline t limits asFloat deadline now)
  attempts env t limits deadlineAt limits.providerAttemptCount

end

/-! ### What a loop may do -/

/-- The delay before another attempt: what a `Retry-After` asks for that is well formed and not too long, or else the
backoff, but never more than the cap. -/
def Outcome.delay (limits : Limits) : Outcome → Nat
  | .response _ _ status header =>
    -- a response whose body is refused asks for no delay
    if 200 ≤ status ∧ status < 300 then min limits.retryBackoffMs limits.retryAfterMs
    else (retryAfter limits header).getD (min limits.retryBackoffMs limits.retryAfterMs)
  | .failed classified => min (classified.retryAfterMs.getD limits.retryBackoffMs) limits.retryAfterMs
  | _ => min limits.retryBackoffMs limits.retryAfterMs

def SendEvent.isAttempt : SendEvent → Bool
  | .attempted .. => true
  | .slept .. => false

/-- The attempts of a log. -/
def attemptCount (log : List SendEvent) : Nat := log.countP SendEvent.isAttempt

section

variable {R : Type} (env : Surroundings) (t : Transport R) (limits : Limits)

/-- The outcome is a failure that permits another attempt. -/
def Transport.Retries (outcome : Outcome) : Prop :=
  ∃ classified, t.verdict limits false outcome = .error classified ∧ classified.retryable = true

/-- An attempt may follow: there was none, or the last one permits another one and the delay has passed. -/
def MayFollow (log : List SendEvent) : Prop :=
  log = [] ∨ ∃ before start outcome, t.Retries limits outcome ∧
    ((outcome.delay limits = 0 ∧ log = before ++ [.attempted start outcome]) ∨
      ∃ start', log = before ++ [.attempted start outcome, .slept start' (outcome.delay limits)])

/-- What is right with an event, given those before it: an attempt is made before the deadline, is not one too many and
may follow; a sleep ends by the deadline and has the delay of the attempt that failed. -/
def EventAllowed (deadlineAt : Rat) (before : List SendEvent) : SendEvent → Prop
  | .attempted start outcome => start < deadlineAt ∧ attemptCount before < limits.providerAttemptCount ∧
      outcome = env.outcome (attemptCount before + 1) ∧ MayFollow t limits before
  | .slept start milliseconds => start + milliseconds / 1000 ≤ deadlineAt ∧ ∃ earlier start' outcome,
      before = earlier ++ [.attempted start' outcome] ∧ t.Retries limits outcome ∧
        milliseconds = outcome.delay limits

/-- How the loop goes and ends. -/
structure SendCorrect (deadlineAt : Rat) (ending : Ending SendError R) (log : List SendEvent) : Prop where
  events : Monitor.Justified (EventAllowed env t limits deadlineAt) log
  ends : (∃ response, ending = .returned response) ∨ ∃ classified, ending = .raised (.provider classified)
  returned : ∀ response, ending = .returned response → ∃ before start outcome,
    log = before ++ [.attempted start outcome] ∧ t.verdict limits false outcome = .ok response
  accepted : ∀ start outcome response, .attempted start outcome ∈ log →
    t.verdict limits false outcome = .ok response → ending = .returned response

end

/-! ### One round -/

section

variable {R : Type} {env : Surroundings} {t : Transport R} {limits : Limits} {deadlineAt : Rat}

private theorem retryAfter_le {header : Option Str} {ms : Nat} (h : retryAfter limits header = some ms) :
    ms ≤ limits.retryAfterMs := by
  unfold retryAfter at h
  have hle := (Option.filter_eq_some_iff.1 h).2
  exact of_decide_eq_true hle

private theorem retryAfterMs_le (limits : Limits) : limits.retryAfterMs ≤ 5000 := by
  have hv := limits.valid
  simp only [LimitValues.isValid, LimitValues.asList, hardMax, List.zip_cons_cons, List.zip_nil_right, List.all_cons,
    List.all_nil, Bool.and_eq_true, decide_eq_true_eq, and_true] at hv
  omega

/-- A header that is not too long for the transport is not too long for a failure. -/
private theorem failure_retryAfter (classification : FailureClass) (header : Option Str) :
    failure classification (retryAfter limits header) = ⟨classification, retryAfter limits header⟩ := by
  have hcap := retryAfterMs_le limits
  unfold failure
  cases hheader : retryAfter limits header with
  | none => rfl
  | some ms =>
    have hms := retryAfter_le hheader
    rw [Option.filter_some, if_pos (decide_eq_true (by omega))]

private theorem retryDelay_failure (classification : FailureClass) :
    retryDelay limits (failure classification none) = min limits.retryBackoffMs limits.retryAfterMs :=
  retryDelay_eq limits _

private theorem retryDelay_httpFailure {status : Int} {header : Option Str}
    (h : (httpFailure status (retryAfter limits header)).retryable = true) :
    retryDelay limits (httpFailure status (retryAfter limits header)) =
      (retryAfter limits header).getD (min limits.retryBackoffMs limits.retryAfterMs) := by
  unfold httpFailure at h ⊢
  by_cases hstatus : 100 ≤ status ∧ status ≤ 599
  · rw [if_pos hstatus, failure_retryAfter, retryDelay_eq]
    cases hheader : retryAfter limits header with
    | none => rfl
    | some ms =>
      have hms := retryAfter_le hheader
      show min ms limits.retryAfterMs = ms
      omega
  · rw [if_neg hstatus] at h
    cases h

private theorem retryDelay_response {late : Bool} {body : Bytes} {contentType header : Option Str} {status : Int}
    {f : ClassifiedFailure} (h : t.verdict limits late (.response body contentType status header) = .error f)
    (hretryable : f.retryable = true) :
    retryDelay limits f = (Outcome.response body contentType status header).delay limits := by
  unfold Transport.verdict at h
  unfold Outcome.delay
  dsimp only at h ⊢
  by_cases hredirect : 300 ≤ status ∧ status ≤ 399
  · rw [if_pos hredirect] at h
    cases h
    cases hretryable
  rw [if_neg hredirect] at h
  by_cases hfailed : status < 200 ∨ 300 ≤ status
  · rw [if_pos hfailed] at h
    cases h
    rw [if_neg (by omega)]
    exact retryDelay_httpFailure hretryable
  rw [if_neg hfailed] at h
  rw [if_pos (by omega)]
  by_cases hcontent : contentType.any isJsonContentType = true
  · rw [if_pos hcontent] at h
    cases haccept : t.accept body with
    | ok response =>
      rw [haccept] at h
      cases h
    | error kind =>
      rw [haccept] at h
      cases h
      exact retryDelay_failure kind
  · rw [if_neg hcontent] at h
    cases h
    cases hretryable

/-- A failure that permits another attempt has the delay of its outcome. -/
theorem verdict_retryable {late : Bool} {outcome : Outcome} {f : ClassifiedFailure}
    (h : t.verdict limits late outcome = .error f) (hretryable : f.retryable = true) :
    t.Retries limits outcome ∧ retryDelay limits f = outcome.delay limits := by
  -- only a timeout is judged by whether the deadline has passed, and it permits no other attempt either way
  have hpermits : outcome ≠ .timeout → t.Retries limits outcome := by
    intro houtcome
    refine ⟨f, ?_, hretryable⟩
    rw [← h]
    cases outcome with
    | timeout => exact absurd rfl houtcome
    | _ => rfl
  cases outcome with
  | response body contentType status header =>
    exact ⟨hpermits (by intro hne; cases hne), retryDelay_response h hretryable⟩
  | failed classified =>
    refine ⟨hpermits (by intro hne; cases hne), ?_⟩
    cases h
    exact retryDelay_eq limits f
  | certificate =>
    refine ⟨hpermits (by intro hne; cases hne), ?_⟩
    cases h
    exact retryDelay_failure t.certificate
  | timeout =>
    cases late with
    | true =>
      cases h
      cases hretryable
    | false =>
      cases h
      cases hretryable
  | connection =>
    refine ⟨hpermits (by intro hne; cases hne), ?_⟩
    cases h
    exact retryDelay_failure .dnsOrConnectionFailure
  | malformed =>
    cases h
    cases hretryable

/-- Whether the deadline has passed does not make a response of an outcome. -/
theorem verdict_eq_ok_iff {late : Bool} {outcome : Outcome} {response : R} :
    t.verdict limits late outcome = .ok response ↔ t.verdict limits false outcome = .ok response := by
  cases outcome with
  | timeout => exact ⟨fun h => (by cases h), fun h => (by cases h)⟩
  | _ => exact Iff.rfl

variable (env t limits deadlineAt) in
/-- An attempt is judged, and perhaps the clock is read once more. -/
theorem attemptResult_spec (outcome : Outcome) (w : SendState) :
    ∃ late w', attemptResult env t limits deadlineAt outcome w = (.returned (t.verdict limits late outcome), w') ∧
      w'.log = w.log := by
  cases outcome with
  | timeout => exact ⟨_, _, rfl, rfl⟩
  | _ => exact ⟨false, w, rfl, rfl⟩

variable (env t limits deadlineAt) in
/-- How a round may go that begins with this log and has this outcome; `n` attempts are left after it. -/
inductive Round (outcome : Outcome) (n : Nat) (log : List SendEvent) : Ending SendError R × SendState → Prop
  | late {w : SendState} {e : ClassifiedFailure} (hlog : w.log = log) : Round outcome n log (.raised (.provider e), w)
  | accepted {w : SendState} {start : Rat} {response : R} (hstart : start < deadlineAt)
      (hverdict : t.verdict limits false outcome = .ok response) (hlog : w.log = log ++ [.attempted start outcome]) :
      Round outcome n log (.returned response, w)
  | refused {w : SendState} {start : Rat} {e : ClassifiedFailure} (hstart : start < deadlineAt)
      (hverdict : ∀ response, t.verdict limits false outcome ≠ .ok response)
      (hlog : w.log = log ++ [.attempted start outcome]) : Round outcome n log (.raised (.provider e), w)
  | retried {w : SendState} {start : Rat} (hstart : start < deadlineAt) (hretries : t.Retries limits outcome)
      (hdelay : outcome.delay limits = 0) (hlog : w.log = log ++ [.attempted start outcome]) :
      Round outcome n log (attempts env t limits deadlineAt n w)
  | slept {w : SendState} {start start' : Rat} (hstart : start < deadlineAt) (hretries : t.Retries limits outcome)
      (hsleep : start' + (outcome.delay limits : Rat) / 1000 ≤ deadlineAt)
      (hlog : w.log = log ++ [.attempted start outcome, .slept start' (outcome.delay limits)]) :
      Round outcome n log (attempts env t limits deadlineAt n w)

private theorem clock_apply (w : SendState) :
    clock env w = (.returned (w.read (env.advance w.readings)).now, w.read (env.advance w.readings)) := rfl

private theorem finalError_eq (limits : Limits) (classified : ClassifiedFailure) (attempt : Nat) :
    ∃ e, finalError limits classified attempt = .provider e := by
  unfold finalError timeoutError
  split
  · exact ⟨_, rfl⟩
  · exact ⟨_, rfl⟩

/-- A failed attempt is the last one, or is followed by the others at once or after its delay. -/
theorem afterFailure_cases {late : Bool} {outcome : Outcome} {f : ClassifiedFailure}
    (hverdict : t.verdict limits late outcome = .error f) (attempt : Nat) (again : Program SendState SendError R)
    (w : SendState) :
    (∃ e w', afterFailure env t limits deadlineAt attempt f again w = (.raised (.provider e), w') ∧ w'.log = w.log) ∨
    (t.Retries limits outcome ∧ ∃ w', afterFailure env t limits deadlineAt attempt f again w = again w' ∧
      ((outcome.delay limits = 0 ∧ w'.log = w.log) ∨
        ∃ start, start + (outcome.delay limits : Rat) / 1000 ≤ deadlineAt ∧
          w'.log = w.log ++ [.slept start (outcome.delay limits)])) := by
  unfold afterFailure
  rw [Program.bind_apply, clock_apply]
  dsimp only
  by_cases heligible : (decideRetry limits f attempt
      (remainingMs deadlineAt (w.read (env.advance w.readings)).now)).eligible = true
  · obtain ⟨hretryable, -, hdelay⟩ := decideRetry_eligible heligible
    obtain ⟨hretries, hsame⟩ := verdict_retryable hverdict hretryable
    rw [hsame] at hdelay
    rw [heligible, Bool.not_true, if_neg Bool.false_ne_true, hdelay]
    by_cases hpause : outcome.delay limits = 0 ∧ t.alwaysPauses = false
    · rw [if_pos hpause]
      exact .inr ⟨hretries, _, rfl, .inl ⟨hpause.1, rfl⟩⟩
    · rw [if_neg hpause, Program.bind_apply, clock_apply]
      dsimp only
      split
      · -- the deadline has come nearer since `decide_retry` was asked
        exact .inl ⟨_, _, rfl, rfl⟩
      · rename_i hfits
        have hsleep := le_of_not_gt hfits
        refine .inr ⟨hretries, _, rfl, .inr ⟨_, ?_, rfl⟩⟩
        show _ + _ ≤ deadlineAt
        linarith
  · obtain ⟨e, he⟩ := finalError_eq limits f attempt
    rw [Bool.eq_false_iff.2 heligible, Bool.not_false, if_pos rfl, he]
    exact .inl ⟨_, _, rfl, rfl⟩

variable (env t limits deadlineAt) in
theorem attempts_round (n : Nat) (w : SendState) :
    Round env t limits deadlineAt (env.outcome (limits.providerAttemptCount - n)) n w.log
      (attempts env t limits deadlineAt (n + 1) w) := by
  unfold attempts
  rw [Program.bind_apply, clock_apply]
  dsimp only
  by_cases hlate : deadlineAt ≤ (w.read (env.advance w.readings)).now
  · rw [if_pos hlate]
    exact .late rfl
  rw [if_neg hlate, Program.bind_apply, Program.modify_apply]
  dsimp only
  -- from here on the attempt stands in the log
  have hstart : (w.read (env.advance w.readings)).now < deadlineAt := lt_of_not_ge hlate
  obtain ⟨late, w', hresult, hlog⟩ := attemptResult_spec env t limits deadlineAt
    (env.outcome (limits.providerAttemptCount - n))
    ((w.read (env.advance w.readings)).attempt (env.outcome (limits.providerAttemptCount - n)))
  rw [Program.bind_apply, hresult]
  dsimp only
  cases hverdict : t.verdict limits late (env.outcome (limits.providerAttemptCount - n)) with
  | ok response =>
    dsimp only
    exact .accepted hstart (verdict_eq_ok_iff.1 hverdict) hlog
  | error f =>
    dsimp only
    have hrefused : ∀ response, t.verdict limits false (env.outcome (limits.providerAttemptCount - n)) ≠
        .ok response := by
      intro response h
      rw [verdict_eq_ok_iff.2 h] at hverdict
      cases hverdict
    rcases afterFailure_cases hverdict (limits.providerAttemptCount - n) (attempts env t limits deadlineAt n) w' with
      ⟨e, w₂, heq, hsame⟩ | ⟨hretries, w₂, heq, ⟨hdelay, hsame⟩ | ⟨start', hsleep, hslept⟩⟩
    · rw [heq]
      exact .refused hstart hrefused (hsame.trans hlog)
    · rw [heq]
      exact .retried hstart hretries hdelay (hsame.trans hlog)
    · rw [heq]
      refine .slept hstart hretries hsleep ?_
      rw [hslept, hlog, SendState.attempt, List.append_assoc]
      rfl

/-! ### All rounds -/

variable (env t limits deadlineAt) in
/-- Before a round, with `n` attempts left. -/
structure Underway (n : Nat) (log : List SendEvent) : Prop where
  events : Monitor.Justified (EventAllowed env t limits deadlineAt) log
  count : attemptCount log + n = limits.providerAttemptCount
  follows : MayFollow t limits log
  failed : ∀ start outcome, .attempted start outcome ∈ log → t.Retries limits outcome

variable {n : Nat} {log : List SendEvent}

private theorem attemptCount_concat (log : List SendEvent) (e : SendEvent) :
    attemptCount (log ++ [e]) = attemptCount log + if e.isAttempt then 1 else 0 := by
  unfold attemptCount
  rw [List.countP_append, List.countP_singleton]

private theorem not_accepted {outcome : Outcome} (h : t.Retries limits outcome) (response : R) :
    t.verdict limits false outcome ≠ .ok response := by
  obtain ⟨f, hf, -⟩ := h
  intro hok
  rw [hf] at hok
  cases hok

theorem Underway.raised (h : Underway env t limits deadlineAt n log) (e : ClassifiedFailure) :
    SendCorrect env t limits deadlineAt (.raised (.provider e)) log where
  events := h.events
  ends := .inr ⟨e, rfl⟩
  returned response hending := by cases hending
  accepted start outcome response hmem hverdict :=
    absurd hverdict (not_accepted (h.failed start outcome hmem) response)

/-- The next attempt is allowed. -/
theorem Underway.allowed (h : Underway env t limits deadlineAt (n + 1) log) {start : Rat}
    (hstart : start < deadlineAt) :
    EventAllowed env t limits deadlineAt log (.attempted start (env.outcome (limits.providerAttemptCount - n))) := by
  have hcount := h.count
  refine ⟨hstart, by omega, ?_, h.follows⟩
  congr 1
  omega

private theorem retries_of_mem {start : Rat} {o : Outcome} (ho : t.Retries limits o)
    (h : ∀ start outcome, .attempted start outcome ∈ log → t.Retries limits outcome) :
    ∀ start' outcome, .attempted start' outcome ∈ log ++ [.attempted start o] → t.Retries limits outcome := by
  intro start' outcome hmem
  rcases List.mem_append.1 hmem with hold | hnew
  · exact h start' outcome hold
  · cases List.mem_singleton.1 hnew
    exact ho

/-- The attempt permits another one, which may follow at once. -/
theorem Underway.retried (h : Underway env t limits deadlineAt (n + 1) log) {start : Rat} (hstart : start < deadlineAt)
    (hretries : t.Retries limits (env.outcome (limits.providerAttemptCount - n)))
    (hdelay : (env.outcome (limits.providerAttemptCount - n)).delay limits = 0) :
    Underway env t limits deadlineAt n (log ++ [.attempted start (env.outcome (limits.providerAttemptCount - n))]) where
  events := h.events.concat (h.allowed hstart)
  count := by
    have hcount := h.count
    rw [attemptCount_concat, SendEvent.isAttempt, if_pos rfl]
    omega
  follows := .inr ⟨log, start, _, hretries, .inl ⟨hdelay, rfl⟩⟩
  failed := retries_of_mem hretries h.failed

/-- The attempt permits another one, and its delay has passed. -/
theorem Underway.slept (h : Underway env t limits deadlineAt (n + 1) log) {start start' : Rat}
    (hstart : start < deadlineAt) (hretries : t.Retries limits (env.outcome (limits.providerAttemptCount - n)))
    (hsleep : start' + ((env.outcome (limits.providerAttemptCount - n)).delay limits : Rat) / 1000 ≤ deadlineAt) :
    Underway env t limits deadlineAt n (log ++ [.attempted start (env.outcome (limits.providerAttemptCount - n)),
      .slept start' ((env.outcome (limits.providerAttemptCount - n)).delay limits)]) := by
  have hsplit : ∀ e e' : SendEvent, log ++ [e, e'] = log ++ [e] ++ [e'] := fun e e' => by simp
  have hcount := h.count
  refine ⟨?_, ?_, .inr ⟨log, start, _, hretries, .inr ⟨start', rfl⟩⟩, ?_⟩
  · rw [hsplit]
    exact (h.events.concat (h.allowed hstart)).concat ⟨hsleep, log, start, _, rfl, hretries, rfl⟩
  · rw [hsplit, attemptCount_concat, attemptCount_concat, SendEvent.isAttempt, SendEvent.isAttempt, if_pos rfl,
      if_neg Bool.false_ne_true]
    omega
  · intro start₁ outcome hmem
    rw [hsplit] at hmem
    rcases List.mem_append.1 hmem with hold | hnew
    · exact retries_of_mem hretries h.failed start₁ outcome hold
    · cases List.mem_singleton.1 hnew

/-- The attempt has a response. -/
theorem Underway.accepted (h : Underway env t limits deadlineAt (n + 1) log) {start : Rat} (hstart : start < deadlineAt)
    {response : R} (hverdict : t.verdict limits false (env.outcome (limits.providerAttemptCount - n)) = .ok response) :
    SendCorrect env t limits deadlineAt (.returned response)
      (log ++ [.attempted start (env.outcome (limits.providerAttemptCount - n))]) where
  events := h.events.concat (h.allowed hstart)
  ends := .inl ⟨response, rfl⟩
  returned response' hending := by
    cases hending
    exact ⟨log, start, _, rfl, hverdict⟩
  accepted start' outcome response' hmem haccepted := by
    rcases List.mem_append.1 hmem with hold | hnew
    · exact absurd haccepted (not_accepted (h.failed start' outcome hold) response')
    · cases List.mem_singleton.1 hnew
      rw [Except.ok.inj (hverdict.symm.trans haccepted)]

/-- The attempt has failed for good. -/
theorem Underway.refused (h : Underway env t limits deadlineAt (n + 1) log) {start : Rat} (hstart : start < deadlineAt)
    (hverdict : ∀ response, t.verdict limits false (env.outcome (limits.providerAttemptCount - n)) ≠ .ok response)
    (e : ClassifiedFailure) : SendCorrect env t limits deadlineAt (.raised (.provider e))
      (log ++ [.attempted start (env.outcome (limits.providerAttemptCount - n))]) where
  events := h.events.concat (h.allowed hstart)
  ends := .inr ⟨e, rfl⟩
  returned response' hending := by cases hending
  accepted start' outcome response' hmem haccepted := by
    rcases List.mem_append.1 hmem with hold | hnew
    · exact absurd haccepted (not_accepted (h.failed start' outcome hold) response')
    · cases List.mem_singleton.1 hnew
      exact absurd haccepted (hverdict response')

/-- By induction on the attempts that are left. -/
theorem attempts_correct (n : Nat) (w : SendState) (h : Underway env t limits deadlineAt n w.log) :
    SendCorrect env t limits deadlineAt (attempts env t limits deadlineAt n w).1
      (attempts env t limits deadlineAt n w).2.log := by
  induction n generalizing w with
  | zero => exact h.raised _
  | succ n ih =>
    have hround := attempts_round env t limits deadlineAt n w
    generalize attempts env t limits deadlineAt (n + 1) w = result at hround ⊢
    cases hround with
    | late hlog =>
      rw [hlog]
      exact h.raised _
    | accepted hstart hverdict hlog =>
      rw [hlog]
      exact h.accepted hstart hverdict
    | refused hstart hverdict hlog =>
      rw [hlog]
      exact h.refused hstart hverdict _
    | retried hstart hretries hdelay hlog =>
      apply ih
      rw [hlog]
      exact h.retried hstart hretries hdelay
    | slept hstart hretries hsleep hlog =>
      apply ih
      rw [hlog]
      exact h.slept hstart hretries hsleep

/-! ### The deadline -/

/-- When the caller's deadline is, unless it is infinite or not a number. -/
def callerDeadline (asFloat : Int → Option Rat) : PyVal → Option Rat
  | .int i => asFloat i
  | .float f => f.value?
  | _ => none

private theorem earlier_finite (own value : Rat) : earlier own (.finite value) = min own value := by
  unfold earlier
  dsimp only
  by_cases h : value < own
  · rw [if_pos h, min_eq_right (le_of_lt h)]
  · rw [if_neg h, min_eq_left (le_of_not_gt h)]

private theorem ok_of_unless {c : Bool} {e : SendError} {x : Except SendError Rat} {a : Rat}
    (h : (if c then .error e else x) = .ok a) : x = .ok a := by
  cases c with
  | true => cases h
  | false => exact h

/-- The deadline of the loop is the earlier one of the transport's own and the caller's. -/
theorem effectiveDeadline_eq_ok {asFloat : Int → Option Rat} {deadline : PyVal} {now : Rat}
    (h : effectiveDeadline t limits asFloat deadline now = .ok deadlineAt) :
    deadlineAt = (callerDeadline asFloat deadline).elim (now + limits.providerTotalTimeoutMs / 1000)
      (min (now + limits.providerTotalTimeoutMs / 1000)) := by
  cases deadline with
  | none => exact (Except.ok.inj h).symm
  | int i =>
    have hvalue := ok_of_unless h
    unfold floatOf at hvalue
    unfold callerDeadline
    dsimp only at hvalue ⊢
    cases hfloat : asFloat i with
    | none =>
      rw [hfloat] at hvalue
      cases hvalue
    | some value =>
      rw [hfloat] at hvalue
      rw [Option.elim_some, ← earlier_finite]
      exact (Except.ok.inj hvalue).symm
  | float f =>
    cases f with
    | finite negative magnitude =>
      have hvalue := Except.ok.inj (ok_of_unless h)
      rw [earlier_finite] at hvalue
      exact hvalue.symm
    -- neither comes before the transport's own deadline
    | infinite negative => exact (Except.ok.inj (ok_of_unless h)).symm
    | nan => exact (Except.ok.inj (ok_of_unless h)).symm
  | _ => cases h

private theorem provider_of_unless {c : Bool} {f : ClassifiedFailure} {x : Except SendError Rat} {e : SendError}
    (h : (if c then .error (.provider f) else x) = .error e) (hx : ∃ a, x = .ok a) :
    ∃ classified, e = .provider classified := by
  obtain ⟨a, rfl⟩ := hx
  cases c with
  | true => exact ⟨f, (Except.error.inj h).symm⟩
  | false => cases h

/-- A deadline that is refused is a failure of the provider, unless it is an integer that no float holds. -/
theorem effectiveDeadline_eq_error {asFloat : Int → Option Rat} {deadline : PyVal} {now : Rat} {e : SendError}
    (hfloat : ∀ i, deadline = .int i → (asFloat i).isSome = true)
    (h : effectiveDeadline t limits asFloat deadline now = .error e) : ∃ classified, e = .provider classified := by
  cases deadline with
  | none => cases h
  | int i =>
    obtain ⟨value, hvalue⟩ := Option.isSome_iff_exists.1 (hfloat i rfl)
    refine provider_of_unless h ⟨earlier (now + limits.providerTotalTimeoutMs / 1000) (.finite value), ?_⟩
    unfold floatOf
    dsimp only
    rw [hvalue]
    rfl
  | float f =>
    cases f with
    | finite negative magnitude => exact provider_of_unless h ⟨_, rfl⟩
    | infinite negative => exact provider_of_unless h ⟨_, rfl⟩
    | nan => exact provider_of_unless h ⟨_, rfl⟩
  | _ => exact ⟨_, (Except.error.inj h).symm⟩

/-- The deadline that takes effect for a call that begins at `start`. -/
def deadlineOf (env : Surroundings) (limits : Limits) (asFloat : Int → Option Rat) (deadline : PyVal) (start : Rat) :
    Rat :=
  let own := start + env.advance 0 + limits.providerTotalTimeoutMs / 1000
  (callerDeadline asFloat deadline).elim own (min own)

theorem send_correct (env : Surroundings) (t : Transport R) (limits : Limits) (asFloat : Int → Option Rat)
    (deadline : PyVal) (hfloat : ∀ i, deadline = .int i → (asFloat i).isSome = true) (start : Rat) :
    SendCorrect env t limits (deadlineOf env limits asFloat deadline start)
      (send env t limits asFloat deadline { now := start }).1
      (send env t limits asFloat deadline { now := start }).2.log := by
  have hbegin : ∀ D, Underway env t limits D limits.providerAttemptCount [] := by
    intro D
    refine ⟨.nil, Nat.zero_add _, .inl rfl, ?_⟩
    intro _ _ hmem
    cases hmem
  unfold send
  rw [Program.bind_apply, clock_apply]
  dsimp only
  cases hdeadline : effectiveDeadline t limits asFloat deadline
      (SendState.read { now := start } (env.advance 0)).now with
  | error e =>
    obtain ⟨classified, rfl⟩ := effectiveDeadline_eq_error hfloat hdeadline
    exact (hbegin _).raised classified
  | ok D =>
    have hD : D = deadlineOf env limits asFloat deadline start := effectiveDeadline_eq_ok hdeadline
    rw [← hD]
    exact attempts_correct _ _ (hbegin D)

end

/-- `float` of an integer that it does not have to round. -/
def smallFloat (i : Int) : Option Rat := if i.natAbs < 2 ^ 1024 then some i else none

/-- The response that asks to wait for two seconds. -/
def waitTwoSeconds : Outcome := .response [] none 429 (some (chars "2"))

def acceptedResponse : Outcome := .response (bytes "\x7b\x7d") (some (chars "application/json")) 200 none

/-- Nothing takes time; the first attempt is put off and the second one has a response. -/
def limitedOnce : Surroundings where
  advance _ := 0
  outcome k := if k = 1 then waitTwoSeconds else acceptedResponse

end NativeMcp.Agent
