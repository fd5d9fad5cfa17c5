import NativeMcp.Agent.Endpoints
import NativeMcp.Agent.Retries

/-!
# One attempt over HTTP

`_one_attempt` opens a connection, posts the request, and reads the body of the response piece by piece; the connection
is closed in any case.  What the peer answers, in which pieces the body arrives, what fails and how much time passes is
arbitrary (`Peer`).  The two transports differ in their headers and in what they make of a body that breaks off.
-/

namespace NativeMcp.Agent

namespace Http

/-! ### What an attempt meets -/

/-- What ends an attempt without a response. -/
inductive Fault where
  | provider (classification : FailureClass)
  | certificate
  | timeout
  /-- `IncompleteRead` -/
  | incompleteRead
  | connection
  | malformed
  deriving DecidableEq

/-- The status of a response and the headers that count. -/
structure ResponseHead where
  status : Int
  contentType : Option Str
  retryAfter : Option Str
  contentLength : Option Str
  deriving DecidableEq

/-- What one attempt meets: how connecting and posting fail, the response, all that the peer sends as its body, how many
bytes a read returns at most beside the first one, and how a read fails. -/
structure Peer where
  connected : Option Fault
  posted : Option Fault
  response : Except Fault ResponseHead
  body : Bytes
  sizes : Nat → Nat
  faults : Nat → Option Fault

/-- What is posted. -/
structure PostRequest where
  host : Str
  port : Int
  path : Str
  headers : List (Str × Str)
  body : Bytes
  deriving DecidableEq

/-- A timeout of the socket, and when it is set. -/
structure SocketTimeout where
  start : Rat
  seconds : Rat
  deriving DecidableEq

/-- The clock, and what has been done on the wire. -/
structure Wire where
  now : Rat
  readings : Nat := 0
  opened : Nat := 0
  closed : Nat := 0
  timeouts : List SocketTimeout := []
  requests : List PostRequest := []
  received : Bytes := []
  deriving DecidableEq

namespace Wire

def read (advance : Nat → Rat) (w : Wire) : Wire :=
  { w with now := w.now + advance w.readings, readings := w.readings + 1 }

def arm (seconds : Rat) (w : Wire) : Wire := { w with timeouts := w.timeouts ++ [⟨w.now, seconds⟩] }

def connect (w : Wire) : Wire := { w with opened := w.opened + 1 }

def close (w : Wire) : Wire := { w with closed := w.closed + 1 }

def post (request : PostRequest) (w : Wire) : Wire := { w with requests := w.requests ++ [request] }

def receive (chunk : Bytes) (w : Wire) : Wire := { w with received := w.received ++ chunk }

end Wire

/-! ### `_one_attempt` -/

/-- What tells the attempts of the two transports apart. -/
structure Attempt where
  /-- What becomes of a fault of `response.read`. -/
  readFault : Fault → Fault
  request : PostRequest

/-- The length that a response declares. -/
def declaredLength (limits : Limits) : Option Str → Except Fault (Option Nat)
  | none => .ok none
  | some declared =>
    if declared = [] ∨ declared.all isDigit = false then .error (.provider .truncatedResponse)
    -- `int` refuses a text of more digits
    else if 4300 < declared.length then .error .malformed
    else if limits.providerResponseBytes < decimalValue declared then .error (.provider .oversizedResponse)
    else .ok (some (decimalValue declared))

section

variable (advance : Nat → Rat) (limits : Limits) (deadline : Rat)

/-- `self.clock()` -/
def wireClock : Program Wire Fault Rat := do
  Program.modify (Wire.read advance)
  let w ← Program.get
  return w.now

/-- `_set_read_timeout` -/
def setReadTimeout : Program Wire Fault Unit := do
  let now ← wireClock advance
  let remaining := min (deadline - now) ((limits.providerReadInactivityTimeoutMs : Rat) / 1000)
  if remaining ≤ 0 then Program.raise (.provider .totalRequestTimeout) else Program.modify (Wire.arm remaining)

/-- The number of bytes that the next read returns. -/
def readSize (sizes : Nat → Nat) (k : Nat) (chunks : Bytes) : Nat :=
  min (min 8192 (limits.providerResponseBytes - chunks.length + 1)) (sizes k + 1)

/-- The loop that reads the body; `rest` is what the peer still sends, and `k` reads have been made. -/
def readBody (a : Attempt) (peer : Peer) (k : Nat) (chunks rest : Bytes) : Program Wire Fault Bytes := do
  setReadTimeout advance limits deadline
  match peer.faults k with
  | some fault => Program.raise (a.readFault fault)
  | none =>
    match rest with
    | [] => return chunks
    | b :: later => do
      let size := readSize limits peer.sizes k chunks
      let chunk := (b :: later).take size
      Program.modify (Wire.receive chunk)
      if limits.providerResponseBytes < (chunks ++ chunk).length then Program.raise (.provider .oversizedResponse)
      else readBody a peer (k + 1) (chunks ++ chunk) ((b :: later).drop size)
termination_by rest.length
decreasing_by
  unfold readSize
  simp only [List.length_drop, List.length_cons]
  omega

/-- What is made of a response. -/
def receive (a : Attempt) (peer : Peer) (head : ResponseHead) : Program Wire Fault Outcome :=
  if head.status < 100 ∨ 599 < head.status then Program.raise (.provider .malformedHttpResponse)
  -- the body of a redirect is not read
  else if 300 ≤ head.status ∧ head.status ≤ 399 then
    return .response [] head.contentType head.status head.retryAfter
  else do
    let declared ← Program.lift (declaredLength limits head.contentLength)
    let body ← readBody advance limits deadline a peer 0 [] peer.body
    if declared.any (· ≠ body.length) then Program.raise (.provider .truncatedResponse)
    else return .response body head.contentType head.status head.retryAfter

/-- The `try` of `_one_attempt`. -/
def exchange (a : Attempt) (peer : Peer) : Program Wire Fault Outcome :=
  match peer.connected with
  | some .timeout => Program.raise (.provider .connectTimeout)
  | some fault => Program.raise fault
  | none => do
    Program.modify (Wire.post a.request)
    match peer.posted with
    | some fault => Program.raise fault
    | none => do
      setReadTimeout advance limits deadline
      let head ← Program.lift peer.response
      receive advance limits deadline a peer head

/-- `try … finally: connection.close()` -/
def closing {α : Type} (x : Program Wire Fault α) : Program Wire Fault α := fun w => ((x w).1, (x w).2.close)

/-- `_one_attempt` -/
def oneAttempt (a : Attempt) (peer : Peer) : Program Wire Fault Outcome := do
  let now ← wireClock advance
  let timeout := min (deadline - now) ((limits.providerConnectTimeoutMs : Rat) / 1000)
  if timeout ≤ 0 then Program.raise (.provider .connectTimeout)
  else do
    Program.modify fun w => (w.arm timeout).connect
    closing (exchange advance limits deadline a peer)

end

/-- The headers that both transports send. -/
def jsonHeaders (body : Bytes) : List (Str × Str) :=
  [(chars "Accept", chars "application/json"), (chars "Content-Type", chars "application/json"),
    (chars "Content-Length", (Nat.toDigits 10 body.length).map Char.toNat)]

/-- `LoopbackFakeTransport._one_attempt` -/
def loopbackAttempt (endpoint : ValidatedEndpoint) (body : Bytes) : Attempt where
  readFault fault := if fault = .incompleteRead then .provider .truncatedResponse else fault
  request := ⟨endpoint.connectHost, endpoint.port, endpoint.path, jsonHeaders body, body⟩

/-- `OpenAICompatibleTransport._one_attempt` -/
def openAiAttempt (endpoint : ValidatedEndpoint) (body : Bytes) (credential : Option Str) (correlationId : Str) :
    Attempt where
  readFault fault := fault
  request := ⟨endpoint.connectHost, endpoint.port, endpoint.path,
    jsonHeaders body ++ [(chars "X-Request-ID", correlationId)] ++
      (credential.map fun c => (chars "Authorization", chars "Bearer " ++ c)).toList, body⟩

/-! ### What an attempt does -/

/-- A timeout that ends by the deadline and is not longer than the limits. -/
def SocketTimeout.Within (limits : Limits) (deadline : Rat) (t : SocketTimeout) : Prop :=
  0 < t.seconds ∧ t.start + t.seconds ≤ deadline ∧
    t.seconds ≤ max ((limits.providerConnectTimeoutMs : Rat) / 1000)
      ((limits.providerReadInactivityTimeoutMs : Rat) / 1000)

/-- What has been done on the wire in one attempt: the socket never waits beyond the deadline, only the request of the
attempt is posted, once at most, and at most one byte too many is read. -/
structure Wire.Bounded (limits : Limits) (deadline : Rat) (a : Attempt) (peer : Peer) (w : Wire) : Prop where
  timeouts : ∀ t ∈ w.timeouts, t.Within limits deadline
  opened : w.opened ≤ 1
  requests : w.requests <+: [a.request]
  received : w.received <+: peer.body ∧ w.received.length ≤ limits.providerResponseBytes + 1

/-- What is true of a response that an attempt returns. -/
def Accepted (limits : Limits) (peer : Peer) (received : Bytes) : Outcome → Prop
  | .response body contentType status header => ∃ declared,
      peer.response = .ok ⟨status, contentType, header, declared⟩ ∧ received = body ∧ 100 ≤ status ∧ status ≤ 599 ∧
      if 300 ≤ status ∧ status ≤ 399 then body = []
      else body = peer.body ∧ body.length ≤ limits.providerResponseBytes ∧
        ∀ length, declared = some length → decimalValue length = body.length
  | _ => False

/-- In the course of an attempt: what has been opened, posted and received. -/
structure Stage (limits : Limits) (deadline : Rat) (opened : Nat) (requests : List PostRequest) (received : Bytes)
    (w : Wire) : Prop where
  timeouts : ∀ t ∈ w.timeouts, t.Within limits deadline
  opened : w.opened = opened
  closed : w.closed = 0
  requests : w.requests = requests
  received : w.received = received

/-- An attempt that has been broken off while the connection was open. -/
structure Broken (limits : Limits) (deadline : Rat) (a : Attempt) (peer : Peer) (w : Wire) : Prop where
  bounded : w.Bounded limits deadline a peer
  opened : w.opened = 1
  closed : w.closed = 0

open Program (Ends)

section

variable {advance : Nat → Rat} {limits : Limits} {deadline : Rat} {a : Attempt} {peer : Peer} {w : Wire} {opened : Nat}
  {requests : List PostRequest} {received chunks rest : Bytes} {S : Wire → Prop}

theorem Stage.read (h : Stage limits deadline opened requests received w) :
    Stage limits deadline opened requests received (w.read advance) :=
  ⟨h.timeouts, h.opened, h.closed, h.requests, h.received⟩

theorem Stage.arm (h : Stage limits deadline opened requests received w) {seconds : Rat}
    (ht : SocketTimeout.Within limits deadline ⟨w.now, seconds⟩) :
    Stage limits deadline opened requests received (w.arm seconds) where
  timeouts := by
    intro t hmem
    rcases List.mem_append.1 hmem with hold | hnew
    · exact h.timeouts t hold
    · rw [List.mem_singleton.1 hnew]
      exact ht
  opened := h.opened
  closed := h.closed
  requests := h.requests
  received := h.received

theorem Stage.broken (h : Stage limits deadline 1 requests received w) (hrequests : requests <+: [a.request])
    (hreceived : received <+: peer.body) (hlength : received.length ≤ limits.providerResponseBytes + 1) :
    Broken limits deadline a peer w where
  bounded := by
    refine ⟨h.timeouts, h.opened.le, ?_, ?_⟩
    · rw [h.requests]
      exact hrequests
    · rw [h.received]
      exact ⟨hreceived, hlength⟩
  opened := h.opened
  closed := h.closed

/-- What is left until the deadline, cut to a limit, is a timeout that ends by it. -/
private theorem within_of_pos {now bound : Rat} (hpos : 0 < min (deadline - now) bound)
    (hbound : bound ≤ max ((limits.providerConnectTimeoutMs : Rat) / 1000)
      ((limits.providerReadInactivityTimeoutMs : Rat) / 1000)) :
    SocketTimeout.Within limits deadline ⟨now, min (deadline - now) bound⟩ := by
  have hleft : min (deadline - now) bound ≤ deadline - now := min_le_left _ _
  have hright : min (deadline - now) bound ≤ bound := min_le_right _ _
  refine ⟨hpos, ?_, hright.trans hbound⟩
  show now + min (deadline - now) bound ≤ deadline
  linarith

theorem setReadTimeout_ends {E : Fault → Wire → Prop}
    (hE : ∀ fault w, Stage limits deadline opened requests received w → E fault w) :
    Ends (Stage limits deadline opened requests received) (setReadTimeout advance limits deadline)
      (fun _ => Stage limits deadline opened requests received) E S := by
  intro w hw
  unfold setReadTimeout wireClock
  rw [Program.bind_apply, Program.bind_apply, Program.modify_apply]
  dsimp only [Program.bind_apply, Program.get_apply, Program.pure_apply]
  by_cases hlate : min (deadline - (w.read advance).now) ((limits.providerReadInactivityTimeoutMs : Rat) / 1000) ≤ 0
  · rw [if_pos hlate]
    exact hE _ _ hw.read
  · rw [if_neg hlate]
    exact hw.read.arm (within_of_pos (lt_of_not_ge hlate) (le_max_right _ _))

/-- The body is read as a whole, or given up with at most one byte too many. -/
theorem readBody_ends (k : Nat) (hbody : chunks ++ rest = peer.body)
    (hlength : chunks.length ≤ limits.providerResponseBytes) :
    Ends (Stage limits deadline 1 [a.request] chunks) (readBody advance limits deadline a peer k chunks rest)
      (fun body w => (body = peer.body ∧ body.length ≤ limits.providerResponseBytes) ∧
        Stage limits deadline 1 [a.request] body w)
      (fun _ => Broken limits deadline a peer) S := by
  induction hn : rest.length using Nat.strong_induction_on generalizing k chunks rest with
  | _ n ih =>
    have hchunks : chunks <+: peer.body := ⟨rest, hbody⟩
    have hbroken : ∀ w, Stage limits deadline 1 [a.request] chunks w → Broken limits deadline a peer w := fun w hw =>
      hw.broken List.prefix_rfl hchunks (by omega)
    rw [readBody.eq_def]
    refine (setReadTimeout_ends fun _ w hw => hbroken w hw).bind fun _ => ?_
    cases peer.faults k with
    | some fault => exact .raise hbroken
    | none =>
      cases rest with
      | nil =>
        rw [List.append_nil] at hbody
        exact .pure fun w hw => ⟨⟨hbody, hlength⟩, hw⟩
      | cons b later =>
        dsimp only
        have hsize : 1 ≤ readSize limits peer.sizes k chunks ∧
            readSize limits peer.sizes k chunks ≤ limits.providerResponseBytes - chunks.length + 1 := by
          unfold readSize
          omega
        generalize readSize limits peer.sizes k chunks = size at hsize
        obtain ⟨hpos, hmost⟩ := hsize
        have htaken : chunks ++ (b :: later).take size ++ (b :: later).drop size = peer.body := by
          rw [List.append_assoc, List.take_append_drop, hbody]
        have hlonger : (chunks ++ (b :: later).take size).length ≤ limits.providerResponseBytes + 1 := by
          have htake := List.length_take_le size (b :: later)
          rw [List.length_append]
          omega
        refine .bind_modify (Stage limits deadline 1 [a.request] (chunks ++ (b :: later).take size)) ?_ fun w hw => ?_
        · by_cases hover : limits.providerResponseBytes < (chunks ++ (b :: later).take size).length
          · rw [if_pos hover]
            exact .raise fun w hw => hw.broken List.prefix_rfl ⟨_, htaken⟩ hlonger
          · rw [if_neg hover]
            have hshorter : ((b :: later).drop size).length < n := by
              rw [← hn, List.length_drop, List.length_cons]
              omega
            exact ih _ hshorter (k + 1) htaken (by omega) rfl
        · refine ⟨hw.timeouts, hw.opened, hw.closed, hw.requests, ?_⟩
          show w.received ++ _ = _
          rw [hw.received]

private theorem declaredLength_eq {declared : Option Str} {length : Option Nat}
    (h : declaredLength limits declared = .ok length) : length = declared.map decimalValue := by
  unfold declaredLength at h
  cases declared with
  | none =>
    cases h
    rfl
  | some declared =>
    dsimp only at h
    split at h
    · cases h
    · split at h
      · cases h
      · split at h
        · cases h
        · cases h
          rfl

theorem receive_ends {head : ResponseHead} (hhead : peer.response = .ok head) :
    Ends (Stage limits deadline 1 [a.request] []) (receive advance limits deadline a peer head)
      (fun outcome w => ∃ body, Stage limits deadline 1 [a.request] body w ∧ body <+: peer.body ∧
        body.length ≤ limits.providerResponseBytes + 1 ∧ Accepted limits peer body outcome)
      (fun _ => Broken limits deadline a peer) S := by
  obtain ⟨status, contentType, header, length⟩ := head
  have hbroken : ∀ w, Stage limits deadline 1 [a.request] [] w → Broken limits deadline a peer w := fun w hw =>
    hw.broken List.prefix_rfl List.nil_prefix (Nat.zero_le _)
  unfold receive
  dsimp only
  by_cases hstatus : status < 100 ∨ 599 < status
  · rw [if_pos hstatus]
    exact .raise hbroken
  rw [if_neg hstatus]
  by_cases hredirect : 300 ≤ status ∧ status ≤ 399
  · rw [if_pos hredirect]
    refine .pure fun w hw => ⟨[], hw, List.nil_prefix, Nat.zero_le _, length, hhead, rfl, by omega, by omega, ?_⟩
    rw [if_pos hredirect]
  rw [if_neg hredirect]
  refine .bind_lift (fun declared hdeclared => ?_) fun _ _ => hbroken
  refine (readBody_ends 0 (List.nil_append _) (Nat.zero_le _)).bind fun body => .of_and fun hbody => ?_
  obtain ⟨hwhole, hlength⟩ := hbody
  have hprefix : body <+: peer.body := by rw [hwhole]
  by_cases hshort : (declared.any fun n => decide (n ≠ body.length)) = true
  · rw [if_pos hshort]
    exact .raise fun w hw => hw.broken List.prefix_rfl hprefix (by omega)
  · rw [if_neg hshort]
    refine .pure fun w hw => ⟨body, hw, hprefix, by omega, length, hhead, rfl, by omega, by omega, ?_⟩
    rw [if_neg hredirect]
    refine ⟨hwhole, hlength, fun n hn => ?_⟩
    rw [declaredLength_eq hdeclared, hn] at hshort
    by_contra hne
    exact hshort (decide_eq_true hne)

variable (advance a peer) in
theorem exchange_ends :
    Ends (Stage limits deadline 1 [] []) (exchange advance limits deadline a peer)
      (fun outcome w => Broken limits deadline a peer w ∧ w.requests = [a.request] ∧
        Accepted limits peer w.received outcome)
      (fun _ => Broken limits deadline a peer) S := by
  have hunposted : ∀ w, Stage limits deadline 1 [] [] w → Broken limits deadline a peer w := fun w hw =>
    hw.broken List.nil_prefix List.nil_prefix (Nat.zero_le _)
  have hposted : ∀ w, Stage limits deadline 1 [a.request] [] w → Broken limits deadline a peer w := fun w hw =>
    hw.broken List.prefix_rfl List.nil_prefix (Nat.zero_le _)
  unfold exchange
  cases peer.connected with
  | some fault => cases fault <;> exact .raise hunposted
  | none =>
    refine .bind_modify (Stage limits deadline 1 [a.request] []) ?_ fun w hw => ?_
    · cases peer.posted with
      | some fault => exact .raise hposted
      | none =>
        refine (setReadTimeout_ends fun _ => hposted).bind fun _ => .bind_lift (fun head hhead => ?_) fun _ _ => hposted
        refine (receive_ends hhead).mono (fun _ => id) (fun outcome w hw => ?_) (fun _ _ => id) fun _ => id
        obtain ⟨body, hstage, hprefix, hlength, haccepted⟩ := hw
        refine ⟨hstage.broken List.prefix_rfl hprefix hlength, hstage.requests, ?_⟩
        rw [hstage.received]
        exact haccepted
    · refine ⟨hw.timeouts, hw.opened, hw.closed, ?_, hw.received⟩
      show w.requests ++ _ = _
      rw [hw.requests]
      rfl

/-- What is right with an attempt. -/
structure AttemptCorrect (limits : Limits) (deadline : Rat) (a : Attempt) (peer : Peer)
    (r : Ending Fault Outcome × Wire) : Prop where
  bounded : r.2.Bounded limits deadline a peer
  closed : r.2.closed = r.2.opened
  ends : r.1 ≠ .suspended
  returned : ∀ outcome, r.1 = .returned outcome →
    r.2.requests = [a.request] ∧ Accepted limits peer r.2.received outcome

theorem Broken.close (h : Broken limits deadline a peer w) :
    w.close.Bounded limits deadline a peer ∧ w.close.closed = w.close.opened := by
  refine ⟨⟨h.bounded.timeouts, h.bounded.opened, h.bounded.requests, h.bounded.received⟩, ?_⟩
  show w.closed + 1 = w.opened
  rw [h.closed, h.opened]

end

/-- Whatever the peer sends and whatever fails: an attempt opens at most one connection and closes it, posts nothing but
its request, once at most, never lets the socket wait beyond the deadline, and reads at most one byte more than the
limit.  A response that it returns has the whole body that the peer sends, within the limit and as long as declared;
the body of a redirect is not read. -/
theorem attempt_correct (advance : Nat → Rat) (limits : Limits) (deadline : Rat) (a : Attempt) (peer : Peer)
    (now : Rat) (readings : Nat) :
    AttemptCorrect limits deadline a peer (oneAttempt advance limits deadline a peer { now, readings }) := by
  have hnone : ∀ now readings, Wire.Bounded limits deadline a peer { now, readings } := fun now readings =>
    ⟨fun t ht => absurd ht List.not_mem_nil, Nat.zero_le 1, List.nil_prefix, List.nil_prefix, Nat.zero_le _⟩
  unfold oneAttempt wireClock
  rw [Program.bind_apply, Program.bind_apply, Program.modify_apply]
  dsimp only [Program.bind_apply, Program.get_apply, Program.pure_apply, Wire.read]
  generalize now + advance readings = start
  by_cases hlate : min (deadline - start) ((limits.providerConnectTimeoutMs : Rat) / 1000) ≤ 0
  · rw [if_pos hlate]
    exact ⟨hnone _ _, rfl, fun h => (by cases h), fun outcome h => (by cases h)⟩
  rw [if_neg hlate, Program.bind_apply, Program.modify_apply]
  dsimp only
  have hnew : Stage limits deadline 0 [] [] { now := start, readings := readings + 1 } :=
    ⟨fun t ht => absurd ht List.not_mem_nil, rfl, rfl, rfl, rfl⟩
  have harmed := hnew.arm (within_of_pos (lt_of_not_ge hlate) (le_max_left _ _))
  have hopen : Stage limits deadline 1 [] []
      ((Wire.arm (min (deadline - start) ((limits.providerConnectTimeoutMs : Rat) / 1000))
        { now := start, readings := readings + 1 }).connect) :=
    ⟨harmed.timeouts, rfl, rfl, rfl, rfl⟩
  have hends := exchange_ends advance a peer (S := fun _ => False) _ hopen
  unfold closing
  generalize exchange advance limits deadline a peer _ = r at hends ⊢
  obtain ⟨outcome | fault | _, w⟩ := r
  · obtain ⟨hbroken, hrequests, haccepted⟩ := hends
    obtain ⟨hbounded, hclosed⟩ := hbroken.close
    refine ⟨hbounded, hclosed, fun h => (by cases h), fun outcome' h => ?_⟩
    cases h
    exact ⟨hrequests, haccepted⟩
  · obtain ⟨hbounded, hclosed⟩ := hends.close
    exact ⟨hbounded, hclosed, fun h => (by cases h), fun outcome h => (by cases h)⟩
  · exact hends.elim

/-! ### An attempt that is not disturbed -/

/-- What the response of a peer comes to when nothing fails: it does not depend on the pieces of its body. -/
def completed (limits : Limits) (body : Bytes) (head : ResponseHead) : Except Fault Outcome :=
  if head.status < 100 ∨ 599 < head.status then .error (.provider .malformedHttpResponse)
  else if 300 ≤ head.status ∧ head.status ≤ 399 then
    .ok (.response [] head.contentType head.status head.retryAfter)
  else do
    let declared ← declaredLength limits head.contentLength
    if limits.providerResponseBytes < body.length then .error (.provider .oversizedResponse)
    else if declared.any (· ≠ body.length) then .error (.provider .truncatedResponse)
    else .ok (.response body head.contentType head.status head.retryAfter)

/-- The clock after so many readings. -/
def clockAt (advance : Nat → Rat) (now : Rat) (readings : Nat) : Nat → Rat
  | 0 => now
  | n + 1 => clockAt advance (now + advance readings) (readings + 1) n

/-- No reading of the clock reaches the deadline. -/
def OnTime (advance : Nat → Rat) (deadline : Rat) (w : Wire) : Prop :=
  ∀ n, clockAt advance w.now w.readings n < deadline

section

variable {advance : Nat → Rat} {limits : Limits} {deadline : Rat} {a : Attempt} {peer : Peer} {w : Wire}
  {chunks rest : Bytes}

theorem OnTime.read (h : OnTime advance deadline w) : OnTime advance deadline (w.read advance) := fun n => h (n + 1)

theorem OnTime.same (h : OnTime advance deadline w) {w' : Wire} (hnow : w'.now = w.now)
    (hreadings : w'.readings = w.readings) : OnTime advance deadline w' := by
  intro n
  rw [hnow, hreadings]
  exact h n

private theorem timeouts_pos (limits : Limits) :
    0 < (limits.providerConnectTimeoutMs : Rat) / 1000 ∧ 0 < (limits.providerReadInactivityTimeoutMs : Rat) / 1000 := by
  have hv := limits.valid
  simp only [LimitValues.isValid, LimitValues.asList, hardMax, List.zip_cons_cons, List.zip_nil_right, List.all_cons,
    List.all_nil, Bool.and_eq_true, decide_eq_true_eq, and_true] at hv
  have hconnect : 0 < limits.providerConnectTimeoutMs := by omega
  have hread : 0 < limits.providerReadInactivityTimeoutMs := by omega
  have hconnect' : (0 : Rat) < limits.providerConnectTimeoutMs := by exact_mod_cast hconnect
  have hread' : (0 : Rat) < limits.providerReadInactivityTimeoutMs := by exact_mod_cast hread
  exact ⟨by linarith, by linarith⟩

/-- What is left is more than nothing as long as the clock is on time. -/
private theorem left_pos (h : OnTime advance deadline w) {bound : Rat} (hbound : 0 < bound) :
    ¬ min (deadline - (w.read advance).now) bound ≤ 0 := by
  have hnow : (w.read advance).now < deadline := h.read 0
  rw [min_le_iff, not_or, not_le, not_le]
  exact ⟨by linarith, hbound⟩

variable (limits) in
theorem setReadTimeout_onTime (h : OnTime advance deadline w) :
    ∃ w', setReadTimeout advance limits deadline w = (.returned (), w') ∧ OnTime advance deadline w' := by
  refine ⟨(w.read advance).arm (min (deadline - (w.read advance).now)
    ((limits.providerReadInactivityTimeoutMs : Rat) / 1000)), ?_, h.read.same rfl rfl⟩
  unfold setReadTimeout wireClock
  rw [Program.bind_apply, Program.bind_apply, Program.modify_apply]
  dsimp only [Program.bind_apply, Program.get_apply, Program.pure_apply]
  rw [if_neg (left_pos h (timeouts_pos limits).2), Program.modify_apply]

variable (a rest) in
/-- By induction on what the peer still sends. -/
theorem readBody_onTime (hfaults : ∀ k, peer.faults k = none) (k : Nat) (h : OnTime advance deadline w)
    (hlength : chunks.length ≤ limits.providerResponseBytes) :
    (readBody advance limits deadline a peer k chunks rest w).1 =
      if limits.providerResponseBytes < (chunks ++ rest).length then .raised (.provider .oversizedResponse)
      else .returned (chunks ++ rest) := by
  induction hn : rest.length using Nat.strong_induction_on generalizing k chunks rest w with
  | _ n ih =>
    obtain ⟨w', hset, hw'⟩ := setReadTimeout_onTime limits h
    rw [readBody.eq_def, Program.bind_apply, hset]
    dsimp only
    rw [hfaults k]
    dsimp only
    cases rest with
    | nil =>
      rw [List.append_nil, if_neg (by omega)]
      rfl
    | cons b later =>
      dsimp only
      have hsize : 1 ≤ readSize limits peer.sizes k chunks := by
        unfold readSize
        omega
      generalize readSize limits peer.sizes k chunks = size at hsize
      have hwhole : chunks ++ (b :: later).take size ++ (b :: later).drop size = chunks ++ b :: later := by
        rw [List.append_assoc, List.take_append_drop]
      rw [Program.bind_apply, Program.modify_apply]
      dsimp only
      by_cases hover : limits.providerResponseBytes < (chunks ++ (b :: later).take size).length
      · -- more comes, so that the whole is too long as well
        have hlong : limits.providerResponseBytes < (chunks ++ b :: later).length := by
          rw [← hwhole, List.length_append]
          omega
        rw [if_pos hover, if_pos hlong]
        rfl
      · have hshorter : ((b :: later).drop size).length < n := by
          rw [← hn, List.length_drop, List.length_cons]
          omega
        have hnext : OnTime advance deadline (w'.receive ((b :: later).take size)) := hw'.same rfl rfl
        rw [if_neg hover, ih _ hshorter _ (k + 1) hnext (by omega) rfl, hwhole]

theorem receive_onTime (hfaults : ∀ k, peer.faults k = none) (h : OnTime advance deadline w) (head : ResponseHead) :
    (receive advance limits deadline a peer head w).1 =
      .ofExcept (completed limits peer.body head) := by
  by_cases hstatus : head.status < 100 ∨ 599 < head.status
  · unfold receive completed
    rw [if_pos hstatus, if_pos hstatus]
    rfl
  by_cases hredirect : 300 ≤ head.status ∧ head.status ≤ 399
  · unfold receive completed
    rw [if_neg hstatus, if_neg hstatus, if_pos hredirect, if_pos hredirect]
    rfl
  cases hdeclared : declaredLength limits head.contentLength with
  | error fault =>
    unfold receive completed
    rw [if_neg hstatus, if_neg hstatus, if_neg hredirect, if_neg hredirect, hdeclared]
    rfl
  | ok declared =>
    have hcompleted : completed limits peer.body head =
        if limits.providerResponseBytes < peer.body.length then .error (.provider .oversizedResponse)
        else if declared.any (· ≠ peer.body.length) then .error (.provider .truncatedResponse)
        else .ok (.response peer.body head.contentType head.status head.retryAfter) := by
      unfold completed
      rw [if_neg hstatus, if_neg hredirect, hdeclared]
      rfl
    have hnone : ([] : Bytes).length ≤ limits.providerResponseBytes := Nat.zero_le _
    have hbody := readBody_onTime a peer.body hfaults 0 h hnone
    rw [List.nil_append] at hbody
    unfold receive
    rw [hcompleted, if_neg hstatus, if_neg hredirect, hdeclared, Program.lift_ok, Program.bind_apply,
      Program.pure_apply]
    dsimp only
    rw [Program.bind_apply]
    generalize readBody advance limits deadline a peer 0 [] peer.body w = r at hbody ⊢
    obtain ⟨ending, w'⟩ := r
    dsimp only at hbody
    rw [hbody]
    by_cases hlong : limits.providerResponseBytes < peer.body.length
    · rw [if_pos hlong, if_pos hlong]
      rfl
    rw [if_neg hlong, if_neg hlong]
    dsimp only
    by_cases hshort : (declared.any fun n => decide (n ≠ peer.body.length)) = true
    · rw [if_pos hshort, if_pos hshort]
      rfl
    · rw [if_neg hshort, if_neg hshort]
      rfl

end

/-- If the deadline is not reached and nothing fails, the response depends on its head and its body alone: neither on
the pieces in which the body arrives nor on the clock. -/
theorem attempt_cut_independent (advance : Nat → Rat) (limits : Limits) (deadline : Rat) (a : Attempt) (peer : Peer)
    (now : Rat) (readings : Nat) (hconnected : peer.connected = none) (hposted : peer.posted = none)
    (hfaults : ∀ k, peer.faults k = none) (htime : ∀ n, clockAt advance now readings n < deadline) :
    (oneAttempt advance limits deadline a peer { now, readings }).1 =
      .ofExcept (peer.response.bind (completed limits peer.body)) := by
  have hstart : OnTime advance deadline { now, readings } := htime
  unfold oneAttempt wireClock
  rw [Program.bind_apply, Program.bind_apply, Program.modify_apply]
  dsimp only [Program.bind_apply, Program.get_apply, Program.pure_apply]
  rw [if_neg (left_pos hstart (timeouts_pos limits).1), Program.bind_apply, Program.modify_apply]
  dsimp only
  generalize hw : Wire.connect _ = w
  have hopen : OnTime advance deadline w := by
    rw [← hw]
    exact hstart.read.same rfl rfl
  unfold closing exchange
  rw [hconnected]
  dsimp only
  rw [Program.bind_apply, Program.modify_apply]
  dsimp only
  rw [hposted]
  dsimp only
  obtain ⟨w', hset, hw'⟩ := setReadTimeout_onTime limits (w := w.post a.request) (hopen.same rfl rfl)
  rw [Program.bind_apply, hset]
  dsimp only
  cases hresponse : peer.response with
  | error fault => rfl
  | ok head =>
    rw [Program.lift_ok, Program.bind_apply, Program.pure_apply]
    dsimp only
    exact receive_onTime hfaults hw' head

/-- A body of two bytes that arrive one by one. -/
def byteByByte : Peer where
  connected := none
  posted := none
  response := .ok ⟨200, some (chars "application/json"), none, some (chars "2")⟩
  body := bytes "\x7b\x7d"
  sizes _ := 0
  faults _ := none

private theorem clockAt_still (now : Rat) (readings n : Nat) : clockAt (fun _ => 0) now readings n = now := by
  induction n generalizing now readings with
  | zero => rfl
  | succ n ih => rw [clockAt, ih, add_zero]

theorem attempt_cut_independent_sample :
    (oneAttempt (fun _ => 0) defaultLimits 1 ⟨id, ⟨[], 443, chars "/", [], []⟩⟩ byteByByte { now := 0 }).1 =
      .returned (.response (bytes "\x7b\x7d") (some (chars "application/json")) 200 none) := by
  have htime : ∀ n, clockAt (fun _ => 0) 0 0 n < 1 := by
    intro n
    rw [clockAt_still]
    norm_num
  rw [attempt_cut_independent _ _ _ _ byteByByte _ _ rfl rfl (fun _ => rfl) htime]
  decide

end Http

end NativeMcp.Agent
