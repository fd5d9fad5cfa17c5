import Mathlib.Init

/-!
# The agent's failures and limits

A classified failure keeps only its class.  The limits are checked when they are built, so that every `Limits` value
lies within the hard maxima.
-/

namespace NativeMcp.Agent

inductive FailureClass where
  | invalidProviderConfiguration
  | credentialUnavailable
  | endpointPolicyRejection
  | insecureScheme
  | tlsVerificationFailure
  | redirectRejected
  | dnsOrConnectionFailure
  | connectTimeout
  | readTimeout
  | totalRequestTimeout
  | invalidContentType
  | requestTooLarge
  | http400InvalidRequest
  | http401AuthenticationFailure
  | http403AuthorizationFailure
  | http404EndpointOrModelNotFound
  | http408RequestTimeout
  | http413PayloadTooLarge
  | http422SemanticRejection
  | otherPermanent4xx
  | http429RateLimited
  | transient5xx
  | permanentProviderFailure
  | malformedJson
  | duplicateKeyJson
  | truncatedResponse
  | oversizedResponse
  | unsupportedProviderContent
  | invalidToolProposal
  | replayOrDuplicateProposal
  | retryExhausted
  | cancelled
  | localValidationFailure
  | localAuthorizationFailure
  | localPolicyFailure
  | malformedHttpResponse
  | mcpProtocolFailure
  | mcpTimeout
  | mcpProcessExit
  | mcpAmbiguousCompletion
  deriving DecidableEq, Repr

/-- `FailureClass.value` -/
def FailureClass.value : FailureClass → String
  | .invalidProviderConfiguration => "invalid_provider_configuration"
  | .credentialUnavailable => "credential_unavailable"
  | .endpointPolicyRejection => "endpoint_policy_rejection"
  | .insecureScheme => "insecure_scheme"
  | .tlsVerificationFailure => "tls_verification_failure"
  | .redirectRejected => "redirect_rejected"
  | .dnsOrConnectionFailure => "dns_or_connection_failure"
  | .connectTimeout => "connect_timeout"
  | .readTimeout => "read_timeout"
  | .totalRequestTimeout => "total_request_timeout"
  | .invalidContentType => "invalid_content_type"
  | .requestTooLarge => "request_too_large_before_transmission"
  | .http400InvalidRequest => "http_400_invalid_request"
  | .http401AuthenticationFailure => "http_401_authentication_failure"
  | .http403AuthorizationFailure => "http_403_authorization_failure"
  | .http404EndpointOrModelNotFound => "http_404_endpoint_or_model_not_found"
  | .http408RequestTimeout => "http_408_request_timeout"
  | .http413PayloadTooLarge => "http_413_payload_too_large"
  | .http422SemanticRejection => "http_422_semantic_request_rejection"
  | .otherPermanent4xx => "other_permanent_4xx"
  | .http429RateLimited => "http_429_rate_limited"
  | .transient5xx => "transient_5xx_provider_failure"
  | .permanentProviderFailure => "permanent_provider_failure"
  | .malformedJson => "malformed_json"
  | .duplicateKeyJson => "duplicate_key_json"
  | .truncatedResponse => "truncated_response"
  | .oversizedResponse => "oversized_response"
  | .unsupportedProviderContent => "unsupported_provider_content"
  | .invalidToolProposal => "invalid_tool_proposal"
  | .replayOrDuplicateProposal => "replay_or_duplicate_proposal"
  | .retryExhausted => "retry_exhausted"
  | .cancelled => "cancelled"
  | .localValidationFailure => "local_validation_failure"
  | .localAuthorizationFailure => "local_authorization_failure"
  | .localPolicyFailure => "local_policy_failure"
  | .malformedHttpResponse => "malformed_http_response"
  | .mcpProtocolFailure => "mcp_protocol_failure"
  | .mcpTimeout => "mcp_timeout"
  | .mcpProcessExit => "mcp_process_exit"
  | .mcpAmbiguousCompletion => "mcp_ambiguous_completion"

/-- What an exception is: a classified `ProviderError`, or any other. -/
inductive Raised where
  | provider (classification : FailureClass)
  | other
  deriving DecidableEq, Repr

/-- The fields of `Limits`, with their defaults. -/
structure LimitValues where
  providerRequestBytes : Nat := 32 * 1024
  providerResponseBytes : Nat := 64 * 1024
  jsonNestingDepth : Nat := 12
  objectArrayItems : Nat := 32
  messageCount : Nat := 8
  messageBytes : Nat := 8 * 1024
  advertisedToolCount : Nat := 8
  toolDefinitionBytes : Nat := 4 * 1024
  proposedToolCallCount : Nat := 4
  toolArgumentBytes : Nat := 4 * 1024
  transcriptBytes : Nat := 32 * 1024
  transcriptEventCount : Nat := 128
  providerConnectTimeoutMs : Nat := 500
  providerReadInactivityTimeoutMs : Nat := 1000
  providerTotalTimeoutMs : Nat := 5000
  providerAttemptCount : Nat := 3
  retryBackoffMs : Nat := 50
  retryAfterMs : Nat := 1000
  orchestrationTotalTimeoutMs : Nat := 15000
  providerTurnCount : Nat := 4
  mcpCallsPerTurn : Nat := 4
  mcpTotalCalls : Nat := 12
  mcpEvidenceItems : Nat := 64
  mcpEvidenceResponseBytes : Nat := 512 * 1024
  mcpRequestBytes : Nat := 16 * 1024
  mcpResponseBytes : Nat := 64 * 1024
  childStdoutBytes : Nat := 512 * 1024
  childStderrBytes : Nat := 64 * 1024
  processStartupTimeoutMs : Nat := 1000
  mcpInitializeTimeoutMs : Nat := 1000
  mcpToolsListTimeoutMs : Nat := 1000
  mcpCallTimeoutMs : Nat := 2000
  gracefulShutdownTimeoutMs : Nat := 500
  deriving DecidableEq, Repr

/-- `HARD_MAX` -/
def hardMax : LimitValues where
  providerRequestBytes := 256 * 1024
  providerResponseBytes := 512 * 1024
  jsonNestingDepth := 24
  objectArrayItems := 128
  messageCount := 32
  messageBytes := 32 * 1024
  advertisedToolCount := 32
  toolDefinitionBytes := 16 * 1024
  proposedToolCallCount := 16
  toolArgumentBytes := 16 * 1024
  transcriptBytes := 128 * 1024
  transcriptEventCount := 128
  providerConnectTimeoutMs := 5000
  providerReadInactivityTimeoutMs := 10000
  providerTotalTimeoutMs := 30000
  providerAttemptCount := 5
  retryBackoffMs := 500
  retryAfterMs := 5000
  orchestrationTotalTimeoutMs := 120000
  providerTurnCount := 16
  mcpCallsPerTurn := 16
  mcpTotalCalls := 64
  mcpEvidenceItems := 128
  mcpEvidenceResponseBytes := 512 * 1024
  mcpRequestBytes := 128 * 1024
  mcpResponseBytes := 512 * 1024
  childStdoutBytes := 1024 * 1024
  childStderrBytes := 512 * 1024
  processStartupTimeoutMs := 10000
  mcpInitializeTimeoutMs := 10000
  mcpToolsListTimeoutMs := 10000
  mcpCallTimeoutMs := 30000
  gracefulShutdownTimeoutMs := 5000

/-- The fields in order. -/
def LimitValues.asList (v : LimitValues) : List Nat :=
  [v.providerRequestBytes, v.providerResponseBytes, v.jsonNestingDepth, v.objectArrayItems, v.messageCount,
    v.messageBytes, v.advertisedToolCount, v.toolDefinitionBytes, v.proposedToolCallCount, v.toolArgumentBytes,
    v.transcriptBytes, v.transcriptEventCount, v.providerConnectTimeoutMs, v.providerReadInactivityTimeoutMs,
    v.providerTotalTimeoutMs, v.providerAttemptCount, v.retryBackoffMs, v.retryAfterMs,
    v.orchestrationTotalTimeoutMs, v.providerTurnCount, v.mcpCallsPerTurn, v.mcpTotalCalls, v.mcpEvidenceItems,
    v.mcpEvidenceResponseBytes, v.mcpRequestBytes, v.mcpResponseBytes, v.childStdoutBytes, v.childStderrBytes,
    v.processStartupTimeoutMs, v.mcpInitializeTimeoutMs, v.mcpToolsListTimeoutMs, v.mcpCallTimeoutMs,
    v.gracefulShutdownTimeoutMs]

/-- `Limits.__post_init__` -/
def LimitValues.isValid (v : LimitValues) : Bool :=
  (v.asList.zip hardMax.asList).all (fun p => 0 < p.1 && p.1 ≤ p.2) &&
  v.mcpEvidenceResponseBytes ≤ v.childStdoutBytes

structure Limits extends LimitValues where
  valid : toLimitValues.isValid = true

def defaultLimits : Limits := { toLimitValues := {}, valid := by decide }

def hardLimits : Limits := { toLimitValues := hardMax, valid := by decide }

/-- `replace(limits, object_array_items=items)` -/
def Limits.withItems (limits : Limits) (items : Nat) (h : 0 < items ∧ items ≤ hardMax.objectArrayItems) : Limits where
  toLimitValues := { limits.toLimitValues with objectArrayItems := items }
  valid := by
    have hv := limits.valid
    simp only [LimitValues.isValid, LimitValues.asList, hardMax, List.zip_cons_cons, List.zip_nil_right, List.all_cons,
      List.all_nil, Bool.and_eq_true, decide_eq_true_eq, and_true] at hv h ⊢
    omega

theorem Limits.mcpEvidenceItems_bounds (limits : Limits) :
    0 < limits.mcpEvidenceItems ∧ limits.mcpEvidenceItems ≤ hardMax.objectArrayItems := by
  have hv := limits.valid
  simp only [LimitValues.isValid, LimitValues.asList, hardMax, List.zip_cons_cons, List.zip_nil_right, List.all_cons,
    List.all_nil, Bool.and_eq_true, decide_eq_true_eq, and_true] at hv ⊢
  omega

/-- `_mcp_evidence_limits` -/
def mcpEvidenceLimits (limits : Limits) : Limits :=
  limits.withItems limits.mcpEvidenceItems limits.mcpEvidenceItems_bounds

end NativeMcp.Agent
