import Mathlib.Data.List.Infix
import NativeMcp.Agent.Transcript

/-!
# The identifiers that the project owns

Every identifier that the agent records has a closed grammar: a request's is `req-` and groups of digits, a proposal's
canonical one is `call-` and digits.  A proposal's identifier that has another form comes from a provider; it is
replaced by a part of its hash (`ToolCallId.ofValue`), and what it is replaced by need not be canonical.
-/

namespace NativeMcp.Agent

/-! ### Characters -/

/-- `[0-9]` -/
def isDigit (c : Nat) : Bool := 0x30 ≤ c && c ≤ 0x39

/-- `[A-Za-z0-9]` -/
def isAlphanumeric (c : Nat) : Bool := isDigit c || (0x41 ≤ c && c ≤ 0x5A) || (0x61 ≤ c && c ≤ 0x7A)

/-- `[A-Za-z0-9_.-]` -/
def isIdentifierChar (c : Nat) : Bool := isAlphanumeric c || c == 0x5F || c == 0x2E || c == 0x2D

def isAscii (s : Str) : Bool := s.all (· < 0x80)

/-- `any(part in s for part in parts)` -/
def containsAny (parts : List String) (s : Str) : Bool := parts.any fun part => containsText (chars part) s

/-- A text has every character of the texts that it contains. -/
theorem mem_of_containsText {part s : Str} (h : containsText part s = true) : ∀ c ∈ part, c ∈ s := by
  obtain ⟨rest, hrest, hstart⟩ := List.any_eq_true.1 h
  intro c hc
  exact ((List.mem_tails _ _).1 hrest).subset ((List.isPrefixOf_iff_prefix.1 hstart).subset hc)

/-- `[A-Za-z0-9][A-Za-z0-9_.-]{0,n}` -/
def isIdentifier (n : Nat) (s : Str) : Bool :=
  s.head?.any isAlphanumeric && s.all isIdentifierChar && s.length ≤ n + 1

/-- `_identifier` -/
def checkIdentifier (value : Str) (classification : FailureClass) : Except Raised Unit :=
  require (isIdentifier 63 value) classification

/-! ### Requests -/

/-- `[0-9]+(?:-[0-9]+)*`; `started` tells whether the present group has a digit. -/
def isDigitGroups (started : Bool) : Str → Bool
  | [] => started
  | c :: s => if isDigit c then isDigitGroups true s else c == 0x2D && started && isDigitGroups false s

/-- `_canonical_correlation_id` accepts the text. -/
def isCorrelationId (s : Str) : Bool :=
  isAscii s && s.length ≤ 64 && (chars "req-").isPrefixOf s && isDigitGroups false (s.drop 4)

/-- `RequestCorrelationId` -/
structure RequestCorrelationId where
  text : Str
  valid : isCorrelationId text = true
  deriving DecidableEq

def RequestCorrelationId.ofValue : PyVal → Except Raised RequestCorrelationId
  | .str s => if h : isCorrelationId s = true then .ok ⟨s, h⟩ else .error (.provider .localValidationFailure)
  | _ => .error (.provider .localValidationFailure)

theorem RequestCorrelationId.ofValue_text (id : RequestCorrelationId) : ofValue (.str id.text) = .ok id := dif_pos id.valid

/-! ### Proposals -/

/-- `_CANONICAL_CALL_ID` -/
def isCanonicalCallId (s : Str) : Bool := (chars "call-").isPrefixOf s && s.drop 5 != [] && (s.drop 5).all isDigit

/-- `_PROJECT_ID_MARKERS` -/
def projectIdMarkers : List String :=
  ["authorization", "proxy-authorization", "bearer", "api-key", "apikey", "credential", "password", "secret", "token",
    "header", "path", "userinfo", "user-info", "sk-", "pk-", "rk-", "://", "http", "ftp"]

/-- `_has_project_id_marker` of an ASCII text. -/
def hasProjectIdMarker (s : Str) : Bool :=
  containsAny projectIdMarkers (s.map lowerAscii) || containsAny ["/", "\\", "@", "?", "#", ":"] s

/-- An identifier that is not canonical but may come from a provider. -/
def isLegacyCallId (s : Str) : Bool := !hasProjectIdMarker s && isIdentifier 127 s

/-- `hashlib.sha256(raw).hexdigest()[:32]` -/
def hashText (L : Library) (raw : Bytes) : Str := ((L.sha256 raw).map UInt8.toNat).take 32

/-- What an identifier from a provider is replaced by. -/
def hashedCallId (L : Library) (s : Str) : Str := chars "call-" ++ hashText L (s.map UInt8.ofNat)

/-- `ToolCallId` -/
structure ToolCallId where
  text : Str
  deriving DecidableEq

namespace ToolCallId

/-- `ToolCallId.__new__` -/
def ofValue (L : Library) : PyVal → Except Raised ToolCallId
  | .str s => do
    require (isAscii s && s != [] && s.length ≤ 128) .invalidToolProposal
    if isCanonicalCallId s then return ⟨s⟩
    require (isLegacyCallId s) .invalidToolProposal
    return ⟨hashedCallId L s⟩
  | _ => .error (.provider .invalidToolProposal)

def requireCanonical (L : Library) : PyVal → Except Raised ToolCallId
  | .str s => do
    require (isCanonicalCallId s) .localValidationFailure
    ofValue L (.str s)
  | _ => .error (.provider .localValidationFailure)

end ToolCallId

/-! ### Models -/

/-- `_GRAMMAR` of the model identifiers; `started` tells whether the present component has a character. -/
def isModelPath (started : Bool) : Str → Bool
  | [] => started
  | c :: s =>
    if started then
      if isIdentifierChar c then isModelPath true s else (c == 0x2F || c == 0x3A) && isModelPath false s
    else isAlphanumeric c && isModelPath true s

/-- `ModelIdentifier._SUSPICIOUS` -/
def modelMarkers : List String :=
  ["authorization", "apikey", "api-key", "bearer", "credential", "password", "secret", "token"]

/-- `ModelIdentifier.__new__` accepts the text. -/
def isModelIdentifier (s : Str) : Bool :=
  s != [] && isAscii s && s.length ≤ 256 && isModelPath false s && s.head? != some 0x2F && s.head? != some 0x5C &&
    !containsText (chars "://") s && !containsAny modelMarkers (s.map lowerAscii) &&
    ["http:", "https:", "ftp:", "file:"].all fun scheme => !(chars scheme).isPrefixOf (s.map lowerAscii)

/-- `ModelIdentifier` -/
structure ModelIdentifier where
  text : Str
  valid : isModelIdentifier text = true
  deriving DecidableEq

def ModelIdentifier.ofValue : PyVal → Except Raised ModelIdentifier
  | .str s => if h : isModelIdentifier s = true then .ok ⟨s, h⟩ else .error (.provider .localValidationFailure)
  | _ => .error (.provider .localValidationFailure)

theorem ModelIdentifier.ofValue_text (model : ModelIdentifier) : ofValue (.str model.text) = .ok model :=
  dif_pos model.valid

/-! ### Provenance -/

inductive EvidenceProvenance where
  | providerSuggestion
  | acceptedToolProposal
  | rejectedToolProposal
  | validatedMcpEvidence
  | locallyDerivedPredicate
  | committedSyntheticFixtureAssertion
  | localControlEvent
  | finalSupportedConclusion
  | unsupportedProviderOutput
  deriving DecidableEq, Repr

namespace EvidenceProvenance

def value : EvidenceProvenance → String
  | .providerSuggestion => "provider_suggestion"
  | .acceptedToolProposal => "accepted_tool_proposal"
  | .rejectedToolProposal => "rejected_tool_proposal"
  | .validatedMcpEvidence => "validated_mcp_evidence"
  | .locallyDerivedPredicate => "locally_derived_predicate"
  | .committedSyntheticFixtureAssertion => "committed_synthetic_fixture_assertion"
  | .localControlEvent => "local_control_event"
  | .finalSupportedConclusion => "final_supported_conclusion"
  | .unsupportedProviderOutput => "unsupported_provider_output"

def all : List EvidenceProvenance :=
  [.providerSuggestion, .acceptedToolProposal, .rejectedToolProposal, .validatedMcpEvidence, .locallyDerivedPredicate,
    .committedSyntheticFixtureAssertion, .localControlEvent, .finalSupportedConclusion, .unsupportedProviderOutput]

/-- `EvidenceProvenance(value)`; raises `ValueError` where there is none. -/
def ofValue : PyVal → Except Raised EvidenceProvenance
  | .str s => ((all.find? fun p => chars p.value == s).map Except.ok).getD (.error .other)
  | _ => .error .other

theorem ofValue_value (p : EvidenceProvenance) : ofValue (.str (chars p.value)) = .ok p := by
  cases p
  all_goals rfl

end EvidenceProvenance

/-- The failure classes in order. -/
def FailureClass.all : List FailureClass :=
  [.invalidProviderConfiguration, .credentialUnavailable, .endpointPolicyRejection, .insecureScheme,
    .tlsVerificationFailure, .redirectRejected, .dnsOrConnectionFailure, .connectTimeout, .readTimeout,
    .totalRequestTimeout, .invalidContentType, .requestTooLarge, .http400InvalidRequest,
    .http401AuthenticationFailure, .http403AuthorizationFailure, .http404EndpointOrModelNotFound,
    .http408RequestTimeout, .http413PayloadTooLarge, .http422SemanticRejection, .otherPermanent4xx,
    .http429RateLimited, .transient5xx, .permanentProviderFailure, .malformedJson, .duplicateKeyJson,
    .truncatedResponse, .oversizedResponse, .unsupportedProviderContent, .invalidToolProposal,
    .replayOrDuplicateProposal, .retryExhausted, .cancelled, .localValidationFailure, .localAuthorizationFailure,
    .localPolicyFailure, .malformedHttpResponse, .mcpProtocolFailure, .mcpTimeout, .mcpProcessExit,
    .mcpAmbiguousCompletion]

/-- `FailureClass(value)`; raises `ValueError` where there is none. -/
def FailureClass.ofValue : PyVal → Except Raised FailureClass
  | .str s => ((FailureClass.all.find? fun c => chars c.value == s).map Except.ok).getD (.error .other)
  | _ => .error .other

theorem FailureClass.ofValue_value (c : FailureClass) : FailureClass.ofValue (.str (chars c.value)) = .ok c := by
  have hall : ∀ c ∈ FailureClass.all, (FailureClass.all.find? fun d => chars d.value == chars c.value) = some c := by
    decide +kernel
  have hmem : c ∈ FailureClass.all := by
    cases c <;> decide
  rw [FailureClass.ofValue, hall c hmem]
  rfl

end NativeMcp.Agent
