import NativeMcp.Agent.HttpSends
import NativeMcp.Agent.Orchestrator
import NativeMcp.Agent.ProviderResponses
import NativeMcp.Agent.SyntheticMessages

/-!
# Turns of the provider

`OpenAICompatibleProvider.turn` maps a request to the format of the provider, sends it and reads the answer.  It has no
way to send anything but committed fixtures: it refuses evidence, every message must be one that passes for a fixture,
and the texts are taken from the fixtures.  In the loopback mode it does not look for the credential; with a
credential it posts to nothing but the configured endpoint, over an address that is global (`turn_egress`).
-/

namespace NativeMcp.Agent

open Synthetic (SyntheticFixture MessageHeap)
open Http (Network Delivery PostRequest sendOver openAiAttempts)

namespace OpenAICompatible

/-! ### Configuration -/

/-- `_CREDENTIAL_ENV` -/
def isCredentialEnv (name : Str) : Bool :=
  (chars "NATIVE_MCP_").isPrefixOf name && 12 ≤ name.length && name.length ≤ 107 &&
    (name.drop 11).all fun c => (0x41 ≤ c && c ≤ 0x5A) || isDigit c || c == 0x5F

/-- `OpenAICompatibleConfig`; `verify_tls` and `data_flow` have one value each. -/
structure OpenAICompatibleConfig where
  endpoint : Str
  model : ModelIdentifier
  credentialEnv : Str
  allowLoopbackHttp : Bool := false
  limits : Limits := defaultLimits
  valid : (endpoint ≠ [] && encodesWithin endpoint && isCredentialEnv credentialEnv) = true

/-- `validated_endpoint` -/
def OpenAICompatibleConfig.validatedEndpoint (U : UrlLibrary) (config : OpenAICompatibleConfig) (resolver : Resolver) :
    Except Raised ValidatedEndpoint :=
  if config.allowLoopbackHttp then validateFakeLoopbackEndpoint U config.endpoint true resolver
  else validateProductionEndpoint U config.endpoint true

/-! ### The request -/

/-- A `ProviderRequest` whose messages are these objects. -/
structure ObjectRequest extends ProviderRequest where
  objects : List Nat
  same : objects.length = messages.length

/-- `{"role": item.wire_role, "content": item.content}` -/
def wireMessage (f : SyntheticFixture) : PyVal :=
  .dict false [(chars "role", .str (chars f.messageRole.value)), (chars "content", .str f.content)]

def wireTool (tool : AdvertisedTool) : PyVal :=
  .dict false [(chars "type", .str (chars "function")), (chars "function", tool.offer)]

/-- The value that is sent for these fixtures. -/
def wireValue (config : OpenAICompatibleConfig) (request : ProviderRequest) (fixtures : List SyntheticFixture) :
    PyVal :=
  .dict false ([(chars "model", .str config.model.text), (chars "messages", .list (fixtures.map wireMessage)),
    (chars "tools", .list (request.tools.map wireTool)),
    (chars "tool_choice", .str (chars (if request.tools.isEmpty then "none" else "auto"))),
    (chars "max_tokens", .int request.maxOutputTokens), (chars "stream", .bool false)] ++
    [(chars "temperature", request.generation.temperature), (chars "top_p", request.generation.topP),
      (chars "seed", request.generation.seed)].filter fun p =>
        match p.2 with
        | .none => false
        | _ => true)

/-- The message of a fixture, as `ProviderMessage` checks it. -/
def providerMessage (f : SyntheticFixture) : ProviderMessage where
  role := f.messageRole
  content := f.content
  valid := by cases f <;> decide

/-- The messages of a request are now those of these fixtures. -/
def withFixtures (request : ProviderRequest) (fixtures : List SyntheticFixture) : Except Raised ProviderRequest :=
  if h : isProviderRequest (fixtures.map providerMessage) request.tools request.maxOutputTokens = true then
    .ok ⟨request.model, fixtures.map providerMessage, request.tools, request.maxOutputTokens, request.correlationId,
      request.generation, h⟩
  else .error (.provider .localValidationFailure)

section

variable (L : Library) (config : OpenAICompatibleConfig)

/-- The fixtures that the messages of a request pass for. -/
def authorizedFixtures (h : MessageHeap) (objects : List Nat) : Except Raised (List SyntheticFixture) :=
  objects.mapM fun o => (h.authorizedFixture o).elim (.error (.provider .localAuthorizationFailure)) .ok

/-- `openai_request_bytes` -/
def openaiRequestBytes (h : MessageHeap) (request : ObjectRequest) : Except Raised Bytes := do
  require (request.model = config.model) .localValidationFailure
  let fixtures ← authorizedFixtures h request.objects
  -- every message is as it was made, so that these are the messages of the request
  let checked ← withFixtures request.toProviderRequest fixtures
  let _ ← checked.toJsonBytes L config.limits
  let encoded ← canon L (wireValue config request.toProviderRequest fixtures)
  require (encoded.length ≤ config.limits.providerRequestBytes) .requestTooLarge
  return encoded

/-- `_load_production_credential` -/
def loadProductionCredential (environment : Str → Option Str) : Except Raised Str := do
  let some credential := environment config.credentialEnv | .error (.provider .credentialUnavailable)
  require (credential ≠ []) .credentialUnavailable
  -- a lone surrogate cannot be encoded
  let some size := encodedSize credential | .error .other
  require (size ≤ 16384 && credential.all fun c => 0x20 ≤ c && c != 0x7F) .credentialUnavailable
  return credential

end

/-! ### The transport -/

/-- An exception of the checks as one of the loop. -/
def sendError : Raised → SendError
  | .provider classification => .provider (failure classification none)
  | .other => .other

/-- A check before anything is sent. -/
def check {α : Type} (x : Except Raised α) : Program Delivery SendError α := Program.lift (x.mapError sendError)

section

variable (U : AddressLibrary) (net : Network) (limits : Limits) (endpoint : ValidatedEndpoint) (body : Bytes)
  (correlationId : Str) (asFloat : Int → Option Rat) (deadline : PyVal)

/-- What `_send` checks before it reads the clock. -/
def checkSend (credential : Option Str) : Except Raised Unit := do
  require (body.length ≤ limits.providerRequestBytes) .requestTooLarge
  require ((chars "req-").isPrefixOf correlationId) .localValidationFailure
  if endpoint.loopbackOnly then do
    validateLoopbackTransportEndpoint U.toUrlLibrary endpoint
    require credential.isNone .localPolicyFailure
  else require (credential.any (· ≠ [])) .credentialUnavailable

/-- `_send` -/
def sendChecked (credential : Option Str) : Program Delivery SendError Bytes := do
  check (checkSend U limits endpoint body correlationId credential)
  sendOver net (openAiAttempts net limits endpoint body U credential correlationId) OpenAICompatibleTransport limits
    asFloat deadline

/-- `send_production` -/
def sendProduction (credential : Str) : Program Delivery SendError Bytes := do
  check (require (!endpoint.loopbackOnly && endpoint.scheme == chars "https") .endpointPolicyRejection)
  check (require (credential ≠ []) .credentialUnavailable)
  sendChecked U net limits endpoint body correlationId asFloat deadline (some credential)

/-- `send_loopback` -/
def sendLoopback : Program Delivery SendError Bytes := do
  check (require endpoint.loopbackOnly .endpointPolicyRejection)
  check (validateLoopbackTransportEndpoint U.toUrlLibrary endpoint)
  sendChecked U net limits endpoint body correlationId asFloat deadline none

end

/-! ### `turn` -/

/-- What a turn meets: the network, the resolver when the endpoint is validated, the environment, `time.monotonic()`,
and whether the turn has been cancelled before it begins and once the response has come. -/
structure TurnWorld where
  net : Network
  resolver : Resolver
  environment : Str → Option Str
  monotonic : Rat
  cancelled : Bool
  cancelledLater : Bool

/-- A finite float. -/
def finiteFloat (x : Rat) : PyVal := .float (.finite (x < 0) |x|)

section

variable (L : Library) (U : AddressLibrary) (config : OpenAICompatibleConfig) (asFloat : Int → Option Rat)
  (world : TurnWorld)

/-- `turn` once the request has been mapped. -/
def sendBody (endpoint : ValidatedEndpoint) (body : Bytes) (correlationId : Str) (deadline : PyVal) :
    Program Delivery SendError Bytes :=
  if endpoint.loopbackOnly then
    sendLoopback U world.net config.limits endpoint body correlationId asFloat deadline
  else do
    let credential ← check (loadProductionCredential config world.environment)
    sendProduction U world.net config.limits endpoint body correlationId asFloat deadline credential

/-- `turn` once the response has come. -/
def readAnswer (request : ObjectRequest) (raw : Bytes) : Program Delivery SendError ProviderResponse := do
  check (require (!world.cancelledLater) .cancelled)
  check (parseOpenaiCompatibleResponse L config.limits request.tools raw)

/-- `OpenAICompatibleProvider.turn` -/
def turn (h : MessageHeap) (request : ObjectRequest) (evidence : List Evidence) (timeoutMs : Int) :
    Program Delivery SendError ProviderResponse := do
  check (require (0 < timeoutMs) .totalRequestTimeout)
  check (require (!world.cancelled) .cancelled)
  check (require evidence.isEmpty .localPolicyFailure)
  let endpoint ← check (config.validatedEndpoint U.toUrlLibrary world.resolver)
  let body ← check (openaiRequestBytes L config h request)
  let deadline := finiteFloat (world.monotonic + timeoutMs / 1000)
  let raw ← sendBody U config asFloat world endpoint body request.correlationId.text deadline
  readAnswer L config world request raw

end

/-! ### Checks -/

section

variable {α β : Type} {x : Except Raised α} {f g : α → Program Delivery SendError β} {d : Delivery}

variable (x f d) in
/-- A check raises, or what follows goes on with its value. -/
theorem check_cases : (∃ raised, (check x >>= f) d = (.raised raised, d)) ∨
    ∃ a, x = .ok a ∧ (check x >>= f) d = f a d := by
  cases x with
  | error e => exact .inl ⟨sendError e, rfl⟩
  | ok a => exact .inr ⟨a, rfl, rfl⟩

theorem check_congr (h : ∀ a, x = .ok a → f a = g a) : check x >>= f = check x >>= g := by
  cases hx : x with
  | error e => rfl
  | ok a => exact h a hx

end

/-! ### What is sent -/

open Synthetic (Minted)
open Synthetic.MessageHeap (after)

/-- What may stand for the host of the configured URL: an address of this machine in the loopback mode, and else a
global address, from an answer to a question for this host that has none but global addresses. -/
def Reaches (U : AddressLibrary) (config : OpenAICompatibleConfig) (net : Network) (split : SplitUrl) (a : IpAddress) :
    Prop :=
  if config.allowLoopbackHttp then a.isLoopback U.mapped = true
  else U.isGlobal a = true ∧ ∃ k records, net.resolver k split.host split.port = some records ∧
    ∀ record ∈ records, ∃ b, globalAddress U record = some b ∧ U.isGlobal b = true

/-- What a turn may post. -/
structure Egress (L : Library) (U : AddressLibrary) (config : OpenAICompatibleConfig) (world : TurnWorld)
    (operations : List MessageHeap.Operation) (request : ObjectRequest) (p : PostRequest) : Prop where
  /-- The texts are those of committed fixtures, for which every message has been minted. -/
  body : ∃ fixtures, List.Forall₂ (fun o f => Minted operations o f ∧
      (after operations).table.object o = some (SyntheticFixture.message f)) request.objects fixtures ∧
    canon L (wireValue config request.toProviderRequest fixtures) = .ok p.body
  size : p.body.length ≤ config.limits.providerRequestBytes
  route : ∃ split, splitUrl U.toUrlLibrary config.endpoint = .ok split ∧
    U.lower split.parsed.scheme = chars (if config.allowLoopbackHttp then "http" else "https") ∧
    p.port = split.port ∧ p.path = split.path ∧
    ∃ a, U.ipAddress p.host = some a ∧ Reaches U config world.net split a
  credential : p.headers.lookup (chars "Authorization") =
    if config.allowLoopbackHttp then none
    else (world.environment config.credentialEnv).map fun credential => chars "Bearer " ++ credential

/-- What a turn does and returns. -/
structure TurnCorrect (L : Library) (U : AddressLibrary) (config : OpenAICompatibleConfig) (world : TurnWorld)
    (operations : List MessageHeap.Operation) (request : ObjectRequest) (evidence : List Evidence) (timeoutMs : Int)
    (r : Ending SendError ProviderResponse × Delivery) : Prop where
  egress : ∀ p ∈ r.2.posts, Egress L U config world operations request p
  count : r.2.posts.length ≤ config.limits.providerAttemptCount
  silent : evidence ≠ [] ∨ timeoutMs ≤ 0 ∨ world.cancelled = true → r.2.posts = []
  returned : ∀ response, r.1 = .returned response → world.cancelledLater = false ∧
    ∃ k head, (world.net.peer k).response = .ok head ∧ 200 ≤ head.status ∧ head.status < 300 ∧
      head.contentType.any isJsonContentType = true ∧
      (world.net.peer k).body.length ≤ config.limits.providerResponseBytes ∧
      parseOpenaiCompatibleResponse L config.limits request.tools (world.net.peer k).body = .ok response

section

variable {L : Library} {U : AddressLibrary} {config : OpenAICompatibleConfig} {asFloat : Int → Option Rat}
  {world : TurnWorld} {operations : List MessageHeap.Operation} {request : ObjectRequest}
  {endpoint e : ValidatedEndpoint} {body : Bytes} {correlationId : Str} {deadline : PyVal} {d : Delivery}

private theorem lookup_authorization (credential : Option Str) :
    (Http.openAiAttempt endpoint body credential correlationId).request.headers.lookup (chars "Authorization") =
      credential.map fun c => chars "Bearer " ++ c := by
  have haccept : (chars "Authorization" == chars "Accept") = false := by decide
  have htype : (chars "Authorization" == chars "Content-Type") = false := by decide
  have hlength : (chars "Authorization" == chars "Content-Length") = false := by decide
  have hid : (chars "Authorization" == chars "X-Request-ID") = false := by decide
  unfold Http.openAiAttempt Http.jsonHeaders
  simp only [List.cons_append, List.nil_append, List.lookup_cons, haccept, htype, hlength, hid]
  cases credential with
  | none => rfl
  | some c =>
    rw [Option.map_some, Option.toList_some, List.lookup_cons, beq_self_eq_true]
    rfl

/-- The messages of a body that has been made pass for fixtures, and their texts are in it. -/
theorem openaiRequestBytes_spec (h : openaiRequestBytes L config (after operations) request = .ok body) :
    (∃ fixtures, List.Forall₂ (fun o f => Minted operations o f ∧
        (after operations).table.object o = some (SyntheticFixture.message f)) request.objects fixtures ∧
      canon L (wireValue config request.toProviderRequest fixtures) = .ok body) ∧
    body.length ≤ config.limits.providerRequestBytes := by
  unfold openaiRequestBytes at h
  obtain ⟨-, h⟩ := require_bind_eq_ok.1 h
  obtain ⟨fixtures, hfixtures, h⟩ := ok_of_bind h
  obtain ⟨checked, -, h⟩ := ok_of_bind h
  obtain ⟨_, -, h⟩ := ok_of_bind h
  obtain ⟨encoded, hencoded, h⟩ := ok_of_bind h
  obtain ⟨hsize, h⟩ := require_bind_eq_ok.1 h
  cases h
  refine ⟨⟨fixtures, ?_, hencoded⟩, of_decide_eq_true hsize⟩
  unfold authorizedFixtures at hfixtures
  refine (forall₂_of_mapM hfixtures).imp fun o f hf => ?_
  cases hpasses : (after operations).authorizedFixture o with
  | none =>
    rw [hpasses] at hf
    cases hf
  | some f' =>
    rw [hpasses] at hf
    cases hf
    obtain ⟨hminted, hobject, -⟩ := (Synthetic.authorizedFixture_iff operations o _).1 hpasses
    exact ⟨hminted, hobject⟩

theorem loadProductionCredential_spec {credential : Str}
    (h : loadProductionCredential config world.environment = .ok credential) :
    world.environment config.credentialEnv = some credential := by
  unfold loadProductionCredential at h
  cases hcredential : world.environment config.credentialEnv with
  | none =>
    rw [hcredential] at h
    cases h
  | some c =>
    rw [hcredential] at h
    obtain ⟨-, h⟩ := require_bind_eq_ok.1 h
    cases hsize : encodedSize c with
    | none =>
      rw [hsize] at h
      cases h
    | some size =>
      rw [hsize] at h
      obtain ⟨-, h⟩ := require_bind_eq_ok.1 h
      cases h
      rfl

/-- The mode of the configuration is that of the endpoint. -/
theorem validatedEndpoint_mode {resolver : Resolver}
    (h : config.validatedEndpoint U.toUrlLibrary resolver = .ok endpoint) :
    endpoint.loopbackOnly = config.allowLoopbackHttp := by
  unfold OpenAICompatibleConfig.validatedEndpoint at h
  by_cases hmode : config.allowLoopbackHttp = true
  · rw [if_pos hmode] at h
    rw [(configured_of_ok h).1.scheme.2, hmode]
  · rw [if_neg hmode] at h
    unfold validateProductionEndpoint at h
    obtain ⟨split, -, h⟩ := ok_of_bind h
    obtain ⟨-, h⟩ := require_bind_eq_ok.1 h
    obtain ⟨-, h⟩ := require_bind_eq_ok.1 h
    cases h
    exact (Bool.eq_false_of_not_eq_true hmode).symm

/-- Where an attempt goes. -/
theorem attempt_route {k : Nat} (hendpoint : config.validatedEndpoint U.toUrlLibrary world.resolver = .ok endpoint)
    (he : Http.attemptEndpoint world.net endpoint U k = .ok e) :
    ∃ split, splitUrl U.toUrlLibrary config.endpoint = .ok split ∧
      U.lower split.parsed.scheme = chars (if config.allowLoopbackHttp then "http" else "https") ∧
      e.port = split.port ∧ e.path = split.path ∧
      ∃ a, U.ipAddress e.connectHost = some a ∧ Reaches U config world.net split a := by
  have hmode := validatedEndpoint_mode hendpoint
  unfold OpenAICompatibleConfig.validatedEndpoint at hendpoint
  unfold Http.attemptEndpoint at he
  rw [hmode] at he
  unfold Reaches
  by_cases hloopback : config.allowLoopbackHttp = true
  · rw [if_pos hloopback] at hendpoint he ⊢
    cases he
    obtain ⟨hconfigured, hurl⟩ := configured_of_ok hendpoint
    obtain ⟨split, hsplit, hscheme, -, hport, hpath⟩ := hconfigured.split
    obtain ⟨a, ha, hlocal⟩ := hconfigured.connect
    rw [hurl] at hsplit
    refine ⟨split, hsplit, hscheme, hport.symm, hpath.symm, a, ha, ?_⟩
    rw [if_pos hloopback]
    exact hlocal
  · rw [if_neg hloopback] at hendpoint he ⊢
    obtain ⟨-, hsame, ⟨a, ha, hglobal⟩, records, hrecords, hall⟩ := resolve_routed he
    unfold validateProductionEndpoint at hendpoint
    obtain ⟨split, hsplit, h⟩ := ok_of_bind hendpoint
    obtain ⟨hscheme, h⟩ := require_bind_eq_ok.1 h
    obtain ⟨-, h⟩ := require_bind_eq_ok.1 h
    cases h
    refine ⟨split, hsplit, beq_iff_eq.1 hscheme, ?_, ?_, a, ha, ?_⟩
    · rw [hsame]
    · rw [hsame]
    · rw [if_neg hloopback]
      exact ⟨hglobal, k, records, hrecords, hall⟩

variable (U config asFloat world) in
/-- What has been mapped is not sent, or is given to the loop with the credential of its mode. -/
theorem sendBody_cases (hmode : endpoint.loopbackOnly = config.allowLoopbackHttp) :
    (∃ raised, sendBody U config asFloat world endpoint body correlationId deadline d = (.raised raised, d)) ∨
      ∃ credential, (credential =
          if config.allowLoopbackHttp then none else world.environment config.credentialEnv) ∧
        sendBody U config asFloat world endpoint body correlationId deadline d =
          sendOver world.net (openAiAttempts world.net config.limits endpoint body U credential correlationId)
            OpenAICompatibleTransport config.limits asFloat deadline d := by
  have hchecked : ∀ credential,
      (∃ raised, sendChecked U world.net config.limits endpoint body correlationId asFloat deadline credential d =
        (.raised raised, d)) ∨
      sendChecked U world.net config.limits endpoint body correlationId asFloat deadline credential d =
        sendOver world.net (openAiAttempts world.net config.limits endpoint body U credential correlationId)
          OpenAICompatibleTransport config.limits asFloat deadline d := by
    intro credential
    unfold sendChecked
    rcases check_cases (checkSend U config.limits endpoint body correlationId credential) _ d with hraised | ⟨_, -, heq⟩
    · exact .inl hraised
    · exact .inr heq
  unfold sendBody
  rw [hmode]
  by_cases hloopback : config.allowLoopbackHttp = true
  · rw [if_pos hloopback, if_pos hloopback]
    unfold sendLoopback
    rcases check_cases (require endpoint.loopbackOnly .endpointPolicyRejection) _ d with hraised | ⟨_, -, heq⟩
    · exact .inl hraised
    rw [heq]
    rcases check_cases (validateLoopbackTransportEndpoint U.toUrlLibrary endpoint) _ d with hraised | ⟨_, -, heq⟩
    · exact .inl hraised
    rw [heq]
    rcases hchecked none with hraised | hsent
    · exact .inl hraised
    · exact .inr ⟨none, rfl, hsent⟩
  · rw [if_neg hloopback, if_neg hloopback]
    rcases check_cases (loadProductionCredential config world.environment) _ d with hraised | ⟨credential, hloaded, heq⟩
    · exact .inl hraised
    rw [heq]
    unfold sendProduction
    rcases check_cases (require (!endpoint.loopbackOnly && endpoint.scheme == chars "https") .endpointPolicyRejection)
      _ d with hraised | ⟨_, -, heq⟩
    · exact .inl hraised
    rw [heq]
    rcases check_cases (require (credential ≠ []) .credentialUnavailable) _ d with hraised | ⟨_, -, heq⟩
    · exact .inl hraised
    rw [heq]
    rcases hchecked (some credential) with hraised | hsent
    · exact .inl hraised
    · exact .inr ⟨some credential, (loadProductionCredential_spec hloaded).symm, hsent⟩

variable (L U config asFloat world operations request d) in
/-- A turn raises before anything has been sent, or sends the body of its request. -/
theorem turn_cases (evidence : List Evidence) (timeoutMs : Int) :
    (∃ raised, turn L U config asFloat world (after operations) request evidence timeoutMs d = (.raised raised, d)) ∨
      (evidence = [] ∧ 0 < timeoutMs ∧ world.cancelled = false) ∧ ∃ endpoint body,
        config.validatedEndpoint U.toUrlLibrary world.resolver = .ok endpoint ∧
        openaiRequestBytes L config (after operations) request = .ok body ∧
        turn L U config asFloat world (after operations) request evidence timeoutMs d =
          (sendBody U config asFloat world endpoint body request.correlationId.text
            (finiteFloat (world.monotonic + timeoutMs / 1000)) >>= readAnswer L config world request) d := by
  unfold turn
  rcases check_cases (require (0 < timeoutMs) .totalRequestTimeout) _ d with hraised | ⟨_, htimeout, heq⟩
  · exact .inl hraised
  rw [heq]
  rcases check_cases (require (!world.cancelled) .cancelled) _ d with hraised | ⟨_, hcancelled, heq⟩
  · exact .inl hraised
  rw [heq]
  rcases check_cases (require evidence.isEmpty .localPolicyFailure) _ d with hraised | ⟨_, hevidence, heq⟩
  · exact .inl hraised
  rw [heq]
  have hstarted : evidence = [] ∧ 0 < timeoutMs ∧ world.cancelled = false :=
    ⟨List.isEmpty_iff.1 (require_eq_ok hevidence), of_decide_eq_true (require_eq_ok htimeout),
      by simpa using require_eq_ok hcancelled⟩
  rcases check_cases (config.validatedEndpoint U.toUrlLibrary world.resolver) _ d with
    hraised | ⟨endpoint, hendpoint, heq⟩
  · exact .inl hraised
  rw [heq]
  rcases check_cases (openaiRequestBytes L config (after operations) request) _ d with hraised | ⟨body, hbody, heq⟩
  · exact .inl hraised
  exact .inr ⟨hstarted, endpoint, body, hendpoint, hbody, heq⟩

variable (L config world request d) in
/-- What is returned for an answer is what is read of it, and nothing is sent. -/
theorem readAnswer_spec (raw : Bytes) : (readAnswer L config world request raw d).2 = d ∧
    ∀ response, (readAnswer L config world request raw d).1 = .returned response → world.cancelledLater = false ∧
      parseOpenaiCompatibleResponse L config.limits request.tools raw = .ok response := by
  unfold readAnswer
  rcases check_cases (require (!world.cancelledLater) .cancelled) _ d with ⟨raised, heq⟩ | ⟨_, hlater, heq⟩
  · rw [heq]
    exact ⟨rfl, fun response h => (by cases h)⟩
  rw [heq]
  unfold check
  cases parseOpenaiCompatibleResponse L config.limits request.tools raw with
  | error raised => exact ⟨rfl, fun response h => (by cases h)⟩
  | ok response =>
    refine ⟨rfl, fun response' h => ?_⟩
    cases h
    exact ⟨by simpa using require_eq_ok hlater, rfl⟩

private theorem attemptCount_le {R : Type} {env : Surroundings} {t : Transport R} {limits : Limits} {deadlineAt : Rat}
    {log : List SendEvent} (h : Monitor.Justified (EventAllowed env t limits deadlineAt) log) :
    attemptCount log ≤ limits.providerAttemptCount := by
  induction log using List.reverseRecOn with
  | nil => exact Nat.zero_le _
  | append_singleton log event ih =>
    have hlast := h log event [] rfl
    unfold attemptCount at ih ⊢
    rw [List.countP_append, List.countP_singleton]
    cases event with
    | attempted start outcome =>
      have hlt : attemptCount log < limits.providerAttemptCount := hlast.2.1
      unfold attemptCount at hlt
      rw [SendEvent.isAttempt, if_pos rfl]
      omega
    | slept start milliseconds =>
      rw [SendEvent.isAttempt, if_neg Bool.false_ne_true]
      refine ih fun before e after hsplit => ?_
      exact h before e (after ++ [.slept start milliseconds]) (by rw [hsplit, List.append_assoc]; rfl)

/-- A loop that sends the body of the request keeps to what a turn may do, and so does the turn with what it makes of
the response. -/
private theorem turnCorrect_sent {evidence : List Evidence} {timeoutMs : Int} {credential : Option Str}
    {deadlineAt : Rat} {sent : Ending SendError Bytes × Delivery}
    (hstarted : evidence = [] ∧ 0 < timeoutMs ∧ world.cancelled = false)
    (hendpoint : config.validatedEndpoint U.toUrlLibrary world.resolver = .ok endpoint)
    (hbody : openaiRequestBytes L config (after operations) request = .ok body)
    (hcredential : credential = if config.allowLoopbackHttp then none else world.environment config.credentialEnv)
    (hsent : Http.Delivered world.net (openAiAttempts world.net config.limits endpoint body U credential correlationId)
      OpenAICompatibleTransport config.limits deadlineAt
      (fun k p => ∃ e, Http.attemptEndpoint world.net endpoint U k = .ok e ∧
        p = (Http.openAiAttempt e body credential correlationId).request) sent)
    {ending : Ending SendError ProviderResponse}
    (hending : ∀ response, ending = .returned response → world.cancelledLater = false ∧
      ∃ raw, sent.1 = .returned raw ∧ parseOpenaiCompatibleResponse L config.limits request.tools raw = .ok response) :
    TurnCorrect L U config world operations request evidence timeoutMs (ending, sent.2) where
  egress p hp := by
    obtain ⟨k, e, he, rfl⟩ := hsent.posted.2 p hp
    obtain ⟨hfixtures, hsize⟩ := openaiRequestBytes_spec hbody
    refine ⟨hfixtures, hsize, attempt_route hendpoint he, ?_⟩
    rw [lookup_authorization, hcredential]
    by_cases hloopback : config.allowLoopbackHttp = true
    · rw [if_pos hloopback, if_pos hloopback]
      rfl
    · rw [if_neg hloopback, if_neg hloopback]
  count := by
    obtain ⟨env, hcorrect⟩ := hsent.correct
    have hlog := attemptCount_le hcorrect.events
    have hposted := hsent.posted.1
    dsimp only
    omega
  silent := by
    intro hnone
    obtain ⟨hevidence, htimeout, hcancelled⟩ := hstarted
    rcases hnone with hsome | hlate | hcancelled'
    · exact absurd hevidence hsome
    · omega
    · rw [hcancelled] at hcancelled'
      cases hcancelled'
  returned := by
    intro response hreturned
    obtain ⟨hlater, raw, hraw, hparsed⟩ := hending response hreturned
    obtain ⟨k, head, hhead, hlow, hhigh, htype, hlength, -, haccepted⟩ := hsent.whole raw hraw
    cases haccepted
    exact ⟨hlater, k, head, hhead, hlow, hhigh, htype, hlength, hparsed⟩

end

end OpenAICompatible

end NativeMcp.Agent
