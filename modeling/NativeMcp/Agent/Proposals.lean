import NativeMcp.Agent.Identifiers
import NativeMcp.Agent.Revalidation

/-!
# Tool proposals

A `ProviderToolCallProposal` freezes its arguments when it is built and derives its action's identity from their
canonical text.
-/

namespace NativeMcp.Agent

/-- `[0-9a-f]` -/
def isHexDigit (c : Nat) : Bool := isDigit c || (0x61 ≤ c && c ≤ 0x66)

/-- The identity of an action is 32 hexadecimal digits. -/
def isActionIdentity (s : Str) : Bool := s.length == 32 && s.all isHexDigit

structure LocalActionIdentity where
  value : Str
  valid : isActionIdentity value = true
  deriving DecidableEq

def LocalActionIdentity.ofText (s : Str) : Except Raised LocalActionIdentity :=
  if h : isActionIdentity s = true then .ok ⟨s, h⟩ else .error (.provider .localValidationFailure)

structure ProviderToolCallProposal where
  callId : ToolCallId
  name : Str
  arguments : PyVal
  canonicalArgumentBytes : Bytes
  actionIdentity : LocalActionIdentity
  validName : isIdentifier 63 name = true
  frozen : arguments.isDict = true

namespace ProviderToolCallProposal

/-- `ProviderToolCallProposal(…)` of an identifier that is project-owned. -/
def create (L : Library) (callId : ToolCallId) (name : Str) (arguments : PyVal) :
    Except Raised ProviderToolCallProposal := do
  checkIdentifier name .invalidToolProposal
  require arguments.isDict .invalidToolProposal
  let frozen ← freezeJson hardLimits none 0 arguments
  jsonValue hardLimits none 0 frozen
  let encoded ← (canon L frozen).mapError fun _ => .provider .invalidToolProposal
  require (encoded.length ≤ hardLimits.toolArgumentBytes) .invalidToolProposal
  let canonical ← canon L (.dict false [(chars "name", .str name), (chars "arguments", frozen)])
  let identity ← LocalActionIdentity.ofText (hashText L canonical)
  if h : isIdentifier 63 name = true ∧ frozen.isDict = true then
    .ok ⟨callId, name, frozen, encoded, identity, h.1, h.2⟩
  else .error (.provider .invalidToolProposal)

/-- What `to_json_bytes` writes of a proposal with these arguments. -/
def value (p : ProviderToolCallProposal) (arguments : PyVal) : PyVal :=
  .dict false [(chars "id", .str p.callId.text), (chars "name", .str p.name), (chars "arguments", arguments)]

/-- `ProviderToolCallProposal.to_json_bytes` -/
def toJsonBytes (L : Library) (p : ProviderToolCallProposal) (limits : Limits) : Except Raised Bytes := do
  require (isCanonicalCallId p.callId.text) .invalidToolProposal
  checkIdentifier p.name .invalidToolProposal
  let frozen ← freezeJson limits none 0 p.arguments
  require frozen.isDict .invalidToolProposal
  let encoded ← canon L (p.value frozen)
  require (encoded.length ≤ limits.toolArgumentBytes) .invalidToolProposal
  return encoded

end ProviderToolCallProposal

end NativeMcp.Agent
