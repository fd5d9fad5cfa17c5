import NativeMcp.Agent.Endpoints

/-!
# Production endpoints

`validate_production_endpoint` accepts a URL when it is configured; `resolve_production_transport_endpoint` asks the
resolver before every connection and replaces the host by an address.  It does so only if every address of the answer
is global, so that a name cannot come to stand for a host of the local network between the two.
-/

namespace NativeMcp.Agent

/-- What is read of addresses beside `UrlLibrary`: `is_global` and `str`. -/
structure AddressLibrary extends UrlLibrary where
  isGlobal : IpAddress → Bool
  text : IpAddress → Str
  /-- The text of an address is read back as the address. -/
  ipAddress_text : ∀ a, ipAddress (text a) = some a

/-- What the resolver answers for a host and a port; `none` if it raises an exception. -/
abbrev Resolver := Str → Nat → Option (List AddressRecord)

/-- `validate_production_endpoint` -/
def validateProductionEndpoint (U : UrlLibrary) (url : Str) (verifyTls : Bool) : Except Raised ValidatedEndpoint := do
  let split ← splitUrl U url
  require (U.lower split.parsed.scheme == chars "https") .insecureScheme
  require verifyTls .tlsVerificationFailure
  return ⟨url, chars "https", split.host, split.host, split.port, split.path, false⟩

/-- The address of a record, if it may be connected to. -/
def globalAddress (U : AddressLibrary) : AddressRecord → Option IpAddress
  | none => none
  | some (family, text) => if family = .other then none else (U.ipAddress text).filter U.isGlobal

/-- `resolve_production_transport_endpoint` -/
def resolveProductionTransportEndpoint (U : AddressLibrary) (endpoint : ValidatedEndpoint) (resolver : Resolver) :
    Except Raised ValidatedEndpoint := do
  let checked ← validateProductionEndpoint U.toUrlLibrary endpoint.url true
  require (endpoint = checked && endpoint.connectHost = endpoint.host && !endpoint.loopbackOnly)
    .dnsOrConnectionFailure
  let some records := resolver checked.host checked.port.toNat | .error (.provider .dnsOrConnectionFailure)
  let some addresses := records.mapM (globalAddress U) | .error endpointRejection
  let address :: _ := addresses | .error (.provider .dnsOrConnectionFailure)
  return { checked with connectHost := U.text address }

/-! ### Where a connection goes -/

/-- The endpoint of a connection: that of the configured URL, with a global address from an answer of global addresses
only in the place of its host. -/
structure ValidatedEndpoint.Routed (U : AddressLibrary) (e endpoint : ValidatedEndpoint) (resolver : Resolver) :
    Prop where
  configured : validateProductionEndpoint U.toUrlLibrary endpoint.url true = .ok endpoint
  same : e = { endpoint with connectHost := e.connectHost }
  address : ∃ a, U.ipAddress e.connectHost = some a ∧ U.isGlobal a = true
  answer : ∃ records, resolver endpoint.host endpoint.port.toNat = some records ∧
    ∀ record ∈ records, ∃ a, globalAddress U record = some a ∧ U.isGlobal a = true

theorem globalAddress_isGlobal {U : AddressLibrary} {record : AddressRecord} {a : IpAddress}
    (h : globalAddress U record = some a) : U.isGlobal a = true := by
  unfold globalAddress at h
  cases record with
  | none => cases h
  | some record =>
    obtain ⟨family, text⟩ := record
    dsimp only at h
    split at h
    · cases h
    · exact (Option.filter_eq_some_iff.1 h).2

private theorem mem_of_mapM {f : AddressRecord → Option IpAddress} {records : List AddressRecord}
    {addresses : List IpAddress} (h : records.mapM f = some addresses) :
    (∀ record ∈ records, ∃ a, f record = some a) ∧ ∀ a ∈ addresses, ∃ record ∈ records, f record = some a := by
  induction records generalizing addresses with
  | nil =>
    cases h
    exact ⟨fun _ hr => absurd hr List.not_mem_nil, fun _ ha => absurd ha List.not_mem_nil⟩
  | cons record records ih =>
    rw [List.mapM_cons] at h
    cases hfirst : f record with
    | none =>
      rw [hfirst] at h
      cases h
    | some first =>
      rw [hfirst] at h
      cases hlater : records.mapM f with
      | none =>
        rw [hlater] at h
        cases h
      | some later =>
        rw [hlater] at h
        cases h
        obtain ⟨hrecords, haddresses⟩ := ih hlater
        refine ⟨List.forall_mem_cons.2 ⟨⟨first, hfirst⟩, hrecords⟩, List.forall_mem_cons.2 ⟨?_, fun a ha => ?_⟩⟩
        · exact ⟨record, List.mem_cons_self, hfirst⟩
        · obtain ⟨r, hr, heq⟩ := haddresses a ha
          exact ⟨r, List.mem_cons_of_mem _ hr, heq⟩

theorem resolve_routed {U : AddressLibrary} {endpoint e : ValidatedEndpoint} {resolver : Resolver}
    (h : resolveProductionTransportEndpoint U endpoint resolver = .ok e) : e.Routed U endpoint resolver := by
  unfold resolveProductionTransportEndpoint at h
  obtain ⟨checked, hchecked, h⟩ := ok_of_bind h
  obtain ⟨hsame, h⟩ := require_bind_eq_ok.1 h
  simp only [Bool.and_eq_true, decide_eq_true_eq] at hsame
  obtain ⟨⟨hsame, -⟩, -⟩ := hsame
  rw [← hsame] at hchecked h
  cases hrecords : resolver endpoint.host endpoint.port.toNat with
  | none =>
    rw [hrecords] at h
    cases h
  | some records =>
    rw [hrecords] at h
    dsimp only at h
    cases haddresses : records.mapM (globalAddress U) with
    | none =>
      rw [haddresses] at h
      cases h
    | some addresses =>
      rw [haddresses] at h
      obtain ⟨hall, hback⟩ := mem_of_mapM haddresses
      cases addresses with
      | nil => cases h
      | cons a rest =>
        cases h
        obtain ⟨record, -, hrecord⟩ := hback a List.mem_cons_self
        refine ⟨hchecked, rfl, ⟨a, U.ipAddress_text a, globalAddress_isGlobal hrecord⟩, records, hrecords,
          fun record hmem => ?_⟩
        obtain ⟨b, hb⟩ := hall record hmem
        exact ⟨b, hb, globalAddress_isGlobal hb⟩

end NativeMcp.Agent
