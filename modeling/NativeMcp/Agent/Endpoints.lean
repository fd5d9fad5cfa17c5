import Mathlib.Tactic.NormNum
import NativeMcp.Agent.SchemaParts

/-!
# Loopback endpoints

`validate_fake_loopback_endpoint` accepts a URL when it is configured; `validate_loopback_transport_endpoint` looks at
the endpoint again before a socket is opened.  The second is stricter: a numeric host must be the address that is
connected to, the path has no DEL, and no address is reserved.  How a URL is split, how an address is read and what the
resolver answers is arbitrary (`UrlLibrary`).
-/

namespace NativeMcp.Agent

/-! ### Addresses -/

/-- An address of `ipaddress`. -/
inductive IpAddress where
  | v4 (value : BitVec 32)
  | v6 (value : BitVec 128) (scope : Option Str)
  deriving DecidableEq

namespace IpAddress

/-- The network whose addresses begin with the `length` bits of `top`. -/
def within {w : Nat} (value : BitVec w) (length top : Nat) : Bool := value.toNat / 2 ^ (w - length) == top

/-- The address whose properties count: from CPython 3.13 on, an address that maps one of IPv4 has the properties of
that one (`mapped`). -/
def effective (mapped : Bool) : IpAddress → IpAddress
  | .v4 value => .v4 value
  | .v6 value scope => if mapped && within value 96 0xFFFF then .v4 (value.setWidth 32) else .v6 value scope

/-- `_reserved_networks`, as their lengths and their first bits. -/
def reservedNetworks : List (Nat × Nat) :=
  [(8, 0x0), (8, 0x1), (7, 0x1), (6, 0x1), (5, 0x1), (4, 0x1), (3, 0x2), (3, 0x3), (3, 0x4), (3, 0x5), (3, 0x6),
    (4, 0xE), (5, 0x1E), (6, 0x3E), (9, 0x1FC)]

def isLoopback (mapped : Bool) (a : IpAddress) : Bool :=
  match a.effective mapped with
  | .v4 value => within value 8 127
  | .v6 value _ => value.toNat == 1

def isUnspecified (mapped : Bool) (a : IpAddress) : Bool :=
  match a.effective mapped with
  | .v4 value => value.toNat == 0
  | .v6 value _ => value.toNat == 0

def isLinkLocal (mapped : Bool) (a : IpAddress) : Bool :=
  match a.effective mapped with
  | .v4 value => within value 16 0xA9FE
  | .v6 value _ => within value 10 0x3FA

def isMulticast (mapped : Bool) (a : IpAddress) : Bool :=
  match a.effective mapped with
  | .v4 value => within value 4 0xE
  | .v6 value _ => within value 8 0xFF

def isReserved (mapped : Bool) (a : IpAddress) : Bool :=
  match a.effective mapped with
  | .v4 value => within value 4 0xF
  | .v6 value _ => reservedNetworks.any fun network => within value network.1 network.2

/-- The loopback address of IPv6. -/
def isOne : IpAddress → Bool
  | .v4 _ => false
  | .v6 value _ => value.toNat == 1

/-- The addresses that the transport excludes beside those that are not loopback. -/
def isExcluded (mapped : Bool) (a : IpAddress) : Bool :=
  a.isUnspecified mapped || a.isLinkLocal mapped || a.isMulticast mapped || a.isReserved mapped

/-- An IPv4 address in `127.0.0.0/8` is in none of the other networks. -/
theorem within_of_loopback {value : BitVec 32} (h : within value 8 127 = true) :
    (value.toNat == 0) = false ∧ within value 16 0xA9FE = false ∧ within value 4 0xE = false ∧
      within value 4 0xF = false := by
  unfold within at h ⊢
  norm_num at h ⊢
  omega

theorem within_of_one {value : BitVec 128} (h : (value.toNat == 1) = true) :
    reservedNetworks.any (fun network => within value network.1 network.2) = true := by
  refine List.any_eq_true.2 ⟨(8, 0), List.mem_cons_self, ?_⟩
  unfold within
  rw [eq_of_beq h]
  norm_num

/-- A loopback address is excluded exactly if it is that of IPv6, which lies in the reserved block `::/8`. -/
theorem isExcluded_of_isLoopback {mapped : Bool} {a : IpAddress} (h : a.isLoopback mapped = true) :
    a.isExcluded mapped = (a.effective mapped).isOne := by
  unfold isLoopback at h
  unfold isExcluded isUnspecified isLinkLocal isMulticast isReserved
  cases haddress : a.effective mapped with
  | v4 value =>
    rw [haddress] at h
    obtain ⟨hzero, hlink, hmulticast, hreserved⟩ := within_of_loopback h
    dsimp only
    rw [hzero, hlink, hmulticast, hreserved]
    rfl
  | v6 value scope =>
    rw [haddress] at h
    dsimp only at h ⊢
    rw [within_of_one h, Bool.or_true]
    exact h.symm

theorem isOne_effective (mapped : Bool) (a : IpAddress) : (a.effective mapped).isOne = a.isOne := by
  cases a with
  | v4 value => rfl
  | v6 value scope =>
    show (if (mapped && within value 96 0xFFFF) = true then IpAddress.v4 (value.setWidth 32)
      else .v6 value scope).isOne = (value.toNat == 1)
    by_cases hmapped : (mapped && within value 96 0xFFFF) = true
    · have hwithin := (Bool.and_eq_true_iff.1 hmapped).2
      unfold within at hwithin
      rw [if_pos hmapped]
      refine (beq_eq_false_iff_ne.2 ?_).symm
      intro hone
      rw [hone] at hwithin
      norm_num at hwithin
    · rw [if_neg hmapped]
      rfl

end IpAddress

/-! ### URLs -/

/-- What `urlsplit` makes of a URL, with the properties that are read from its `netloc`. -/
structure SplitResult where
  scheme : Str
  netloc : Str
  path : Str
  query : Str
  fragment : Str
  username : Option Str
  password : Option Str
  hostname : Option Str
  port : Option Nat

/-- The functions of the standard library on texts: `urlsplit`, `none` where it or a property raises `ValueError`;
`ipaddress.ip_address`, `none` where it does; `str.lower` and `str.isspace`. -/
structure UrlLibrary where
  urlsplit : Str → Option SplitResult
  ipAddress : Str → Option IpAddress
  lower : Str → Str
  isSpace : Nat → Bool
  /-- Addresses that map an address of IPv4 have its properties. -/
  mapped : Bool
  /-- The empty text is no address. -/
  ipAddress_nil : ipAddress [] = none
  /-- A scheme is in lower case. -/
  lower_scheme : ∀ url parsed, urlsplit url = some parsed → lower parsed.scheme = parsed.scheme

def endpointRejection : Raised := .provider .endpointPolicyRejection

/-- `len(s.encode("utf-8")) <= 2_048` -/
def encodesWithin (s : Str) : Bool := (encodedSize s).any (· ≤ 2048)

/-- What `_split` returns. -/
structure SplitUrl where
  parsed : SplitResult
  host : Str
  port : Nat
  path : Str

/-- A path without a control character that begins with a slash. -/
def isRequestPath (path : Str) : Bool := path.head? == some 0x2F && path.all (0x20 ≤ ·)

/-- `_split` -/
def splitUrl (U : UrlLibrary) (url : Str) : Except Raised SplitUrl := do
  require (url ≠ [] && url.all (0x20 ≤ ·) && encodesWithin url) .endpointPolicyRejection
  let some parsed := U.urlsplit url | .error endpointRejection
  require (parsed.netloc ≠ [] && parsed.username.isNone && parsed.password.isNone) .endpointPolicyRejection
  require (parsed.fragment = [] && parsed.query = []) .endpointPolicyRejection
  let some host := parsed.hostname | .error endpointRejection
  require (host ≠ [] && !host.any U.isSpace) .endpointPolicyRejection
  -- an authority without a port has that of its scheme, and an empty path is the root
  let port := parsed.port.getD (if U.lower parsed.scheme = chars "https" then 443 else 80)
  require (1 ≤ port && port ≤ 65535) .endpointPolicyRejection
  let path := if parsed.path = [] then chars "/" else parsed.path
  require (isRequestPath path && encodesWithin path) .endpointPolicyRejection
  return ⟨parsed, host, port, path⟩

structure ValidatedEndpoint where
  url : Str
  scheme : Str
  host : Str
  connectHost : Str
  port : Int
  path : Str
  loopbackOnly : Bool
  deriving DecidableEq

/-! ### The two policies -/

inductive AddressFamily where
  | inet
  | inet6
  | other
  deriving DecidableEq

/-- One record that the resolver answers with: the family and `str(sockaddr[0])`, `none` where the record has another
shape. -/
abbrev AddressRecord := Option (AddressFamily × Str)

section

variable (U : UrlLibrary)

/-- `_is_loopback_address` -/
def isLoopbackAddress (text : Str) : Bool := (U.ipAddress text).any (·.isLoopback U.mapped)

/-- `_resolved_addresses`, as the texts of the addresses; a resolver raises `OSError` or `ValueError` (`none`). -/
def resolvedAddresses (records : Option (List AddressRecord)) : Except Raised (List Str) := do
  let some records := records | .error endpointRejection
  let some records := records.mapM id | .error endpointRejection
  require (records.all fun r => r.1 = .inet || r.1 = .inet6) .endpointPolicyRejection
  let addresses := records.map (·.2)
  require (addresses ≠ [] && addresses.all (isLoopbackAddress U)) .endpointPolicyRejection
  return addresses

/-- The host is `localhost` or a numeric loopback address. -/
def isLoopbackHost (host : Str) : Bool :=
  match U.ipAddress host with
  | some a => a.isLoopback U.mapped
  | none => U.lower host == chars "localhost"

/-- `validate_fake_loopback_endpoint` -/
def validateFakeLoopbackEndpoint (url : Str) (allowLoopbackHttp : Bool)
    (resolver : Str → Nat → Option (List AddressRecord)) : Except Raised ValidatedEndpoint := do
  require allowLoopbackHttp .endpointPolicyRejection
  let split ← splitUrl U url
  require (U.lower split.parsed.scheme == chars "http") .insecureScheme
  require (["0.0.0.0", "::", "[::]", ""].all fun wildcard => split.host != chars wildcard) .endpointPolicyRejection
  require (isLoopbackHost U split.host) .endpointPolicyRejection
  let addresses ← resolvedAddresses U (resolver split.host split.port)
  let some connectHost := addresses.head? | .error .other
  return ⟨url, chars "http", split.host, connectHost, split.port, split.path, true⟩

/-- The host of the URL agrees with the address of the connection. -/
def hostAgrees (host : Str) (address : IpAddress) : Bool :=
  match U.ipAddress host with
  | some a => a = address
  | none => U.lower host == chars "localhost"

/-- `validate_loopback_transport_endpoint` -/
def validateLoopbackTransportEndpoint (endpoint : ValidatedEndpoint) : Except Raised Unit := do
  require (endpoint.scheme == chars "http" && endpoint.loopbackOnly) .endpointPolicyRejection
  require (endpoint.connectHost ≠ []) .endpointPolicyRejection
  let some address := U.ipAddress endpoint.connectHost | .error endpointRejection
  require (address.isLoopback U.mapped && !address.isExcluded U.mapped) .endpointPolicyRejection
  require (1 ≤ endpoint.port && endpoint.port ≤ 65535) .endpointPolicyRejection
  require (endpoint.path.head? == some 0x2F) .endpointPolicyRejection
  -- only this policy refuses DEL
  require ((endpoint.path.all fun c => 0x20 ≤ c && c != 0x7F) && encodesWithin endpoint.path) .endpointPolicyRejection
  -- the endpoint may have been built by hand, so its fields are compared with its URL
  let split ← splitUrl U endpoint.url
  require (split.parsed.scheme == chars "http" && split.parsed.username.isNone && split.parsed.password.isNone)
    .endpointPolicyRejection
  require (split.host == endpoint.host && (split.port : Int) == endpoint.port && split.path == endpoint.path)
    .endpointPolicyRejection
  require (hostAgrees U split.host address) .endpointPolicyRejection

variable {U}

/-- What `_split` has checked. -/
structure SplitUrl.Checked (U : UrlLibrary) (url : Str) (split : SplitUrl) : Prop where
  parsed : U.urlsplit url = some split.parsed
  user : split.parsed.username.isNone = true ∧ split.parsed.password.isNone = true
  port : 1 ≤ split.port ∧ split.port ≤ 65535
  path : isRequestPath split.path = true ∧ encodesWithin split.path = true

theorem splitUrl_spec {url : Str} {split : SplitUrl} (h : splitUrl U url = .ok split) : split.Checked U url := by
  unfold splitUrl at h
  obtain ⟨-, h⟩ := require_bind_eq_ok.1 h
  cases hparsed : U.urlsplit url with
  | none =>
    rw [hparsed] at h
    cases h
  | some parsed =>
    rw [hparsed] at h
    obtain ⟨huser, h⟩ := require_bind_eq_ok.1 h
    obtain ⟨-, h⟩ := require_bind_eq_ok.1 h
    cases hhost : parsed.hostname with
    | none =>
      rw [hhost] at h
      cases h
    | some host =>
      rw [hhost] at h
      obtain ⟨-, h⟩ := require_bind_eq_ok.1 h
      obtain ⟨hport, h⟩ := require_bind_eq_ok.1 h
      obtain ⟨hpath, h⟩ := require_bind_eq_ok.1 h
      cases h
      rw [Bool.and_eq_true, Bool.and_eq_true] at huser
      rw [Bool.and_eq_true, decide_eq_true_eq, decide_eq_true_eq] at hport
      exact ⟨hparsed, ⟨huser.1.2, huser.2⟩, hport, Bool.and_eq_true_iff.1 hpath⟩

/-- What the first policy has checked of the endpoint that it returns. -/
structure ValidatedEndpoint.Configured (U : UrlLibrary) (e : ValidatedEndpoint) : Prop where
  scheme : e.scheme = chars "http" ∧ e.loopbackOnly = true
  split : ∃ split, splitUrl U e.url = .ok split ∧ U.lower split.parsed.scheme = chars "http" ∧
    split.host = e.host ∧ (split.port : Int) = e.port ∧ split.path = e.path
  host : isLoopbackHost U e.host = true
  connect : ∃ a, U.ipAddress e.connectHost = some a ∧ a.isLoopback U.mapped = true

theorem resolvedAddresses_spec {records : Option (List AddressRecord)} {addresses : List Str}
    (h : resolvedAddresses U records = .ok addresses) : addresses.all (isLoopbackAddress U) = true := by
  unfold resolvedAddresses at h
  cases records with
  | none => cases h
  | some records =>
    dsimp only at h
    cases hrecords : records.mapM id with
    | none =>
      rw [hrecords] at h
      cases h
    | some rows =>
      rw [hrecords] at h
      obtain ⟨-, h⟩ := require_bind_eq_ok.1 h
      obtain ⟨hall, h⟩ := require_bind_eq_ok.1 h
      cases h
      exact (Bool.and_eq_true_iff.1 hall).2

theorem configured_of_ok {url : Str} {allow : Bool} {resolver : Str → Nat → Option (List AddressRecord)}
    {e : ValidatedEndpoint} (h : validateFakeLoopbackEndpoint U url allow resolver = .ok e) :
    e.Configured U ∧ e.url = url := by
  unfold validateFakeLoopbackEndpoint at h
  obtain ⟨-, h⟩ := require_bind_eq_ok.1 h
  obtain ⟨split, hsplit, h⟩ := ok_of_bind h
  obtain ⟨hscheme, h⟩ := require_bind_eq_ok.1 h
  obtain ⟨-, h⟩ := require_bind_eq_ok.1 h
  obtain ⟨hhost, h⟩ := require_bind_eq_ok.1 h
  obtain ⟨addresses, haddresses, h⟩ := ok_of_bind h
  have hall := resolvedAddresses_spec haddresses
  cases addresses with
  | nil => cases h
  | cons connectHost rest =>
    cases h
    rw [List.all_cons, Bool.and_eq_true] at hall
    unfold isLoopbackAddress at hall
    rw [Option.any_eq_true] at hall
    exact ⟨⟨⟨rfl, rfl⟩, ⟨split, hsplit, eq_of_beq hscheme, rfl, rfl, rfl⟩, hhost, hall.1⟩, rfl⟩

/-- What the second policy checks of an endpoint once its address is read. -/
structure ValidatedEndpoint.Agrees (U : UrlLibrary) (e : ValidatedEndpoint) (a : IpAddress) : Prop where
  address : a.isLoopback U.mapped = true ∧ a.isExcluded U.mapped = false
  port : 1 ≤ e.port ∧ e.port ≤ 65535
  path : e.path.head? = some 0x2F ∧ (∀ c ∈ e.path, 0x20 ≤ c ∧ c ≠ 0x7F) ∧ encodesWithin e.path = true
  split : ∃ split, splitUrl U e.url = .ok split ∧ split.parsed.scheme = chars "http" ∧
    (split.host = e.host ∧ (split.port : Int) = e.port ∧ split.path = e.path) ∧ hostAgrees U split.host a = true

theorem transport_ok_iff {e : ValidatedEndpoint} : validateLoopbackTransportEndpoint U e = .ok () ↔
    (e.scheme = chars "http" ∧ e.loopbackOnly = true) ∧ e.connectHost ≠ [] ∧
      ∃ a, U.ipAddress e.connectHost = some a ∧ e.Agrees U a := by
  unfold validateLoopbackTransportEndpoint
  rw [require_bind_eq_ok, require_bind_eq_ok, Bool.and_eq_true, beq_iff_eq, decide_eq_true_eq]
  refine and_congr_right fun _ => and_congr_right fun _ => ?_
  cases U.ipAddress e.connectHost with
  | none =>
    constructor
    · intro h
      cases h
    · rintro ⟨a, ha, -⟩
      cases ha
  | some address =>
    dsimp only
    rw [require_bind_eq_ok, require_bind_eq_ok, require_bind_eq_ok, require_bind_eq_ok]
    simp only [Bool.and_eq_true, Bool.not_eq_true', decide_eq_true_eq, beq_iff_eq, List.all_eq_true, bne_iff_ne]
    constructor
    · rintro ⟨haddress, hport, hhead, hpath, h⟩
      obtain ⟨split, hsplit, h⟩ := ok_of_bind h
      obtain ⟨hscheme, h⟩ := require_bind_eq_ok.1 h
      obtain ⟨hsame, h⟩ := require_bind_eq_ok.1 h
      simp only [Bool.and_eq_true, beq_iff_eq] at hscheme hsame
      exact ⟨address, rfl, haddress, hport, ⟨hhead, hpath⟩, split, hsplit, hscheme.1.1,
        ⟨hsame.1.1, hsame.1.2, hsame.2⟩, require_eq_ok h⟩
    · rintro ⟨a, ha, haddress, hport, ⟨hhead, hpath⟩, split, hsplit, hscheme, ⟨hhost, hsamePort, hsamePath⟩, hagrees⟩
      cases ha
      refine ⟨haddress, hport, hhead, hpath, ?_⟩
      have huser := (splitUrl_spec hsplit).user
      rw [hsplit]
      refine require_bind_eq_ok.2 ⟨?_, require_bind_eq_ok.2 ⟨?_, ?_⟩⟩
      · rw [hscheme, huser.1, huser.2]
        rfl
      · rw [hhost, hsamePort, hsamePath]
        simp
      · rw [require, if_pos hagrees]

/-- An endpoint that was configured agrees with an address exactly if this is its own and the path has no DEL. -/
theorem ValidatedEndpoint.Configured.agrees_iff {e : ValidatedEndpoint} (h : e.Configured U) {a : IpAddress}
    (ha : a.isLoopback U.mapped = true) :
    e.Agrees U a ↔ a.isOne = false ∧ 0x7F ∉ e.path ∧ ∀ b, U.ipAddress e.host = some b → b = a := by
  obtain ⟨split, hsplit, hlower, hhost, hport, hpath⟩ := h.split
  have hchecked := splitUrl_spec hsplit
  have hscheme : split.parsed.scheme = chars "http" := by
    rw [← hlower, U.lower_scheme _ _ hchecked.parsed]
  have hrequest := hchecked.path
  rw [hpath, isRequestPath, Bool.and_eq_true, beq_iff_eq, List.all_eq_true] at hrequest
  have hagrees : hostAgrees U e.host a = true ↔ ∀ b, U.ipAddress e.host = some b → b = a := by
    have hloopback := h.host
    unfold isLoopbackHost at hloopback
    unfold hostAgrees
    cases hb : U.ipAddress e.host with
    | none =>
      rw [hb] at hloopback
      simpa using hloopback
    | some b => simp
  have hexcluded : a.isExcluded U.mapped = a.isOne := by
    rw [IpAddress.isExcluded_of_isLoopback ha, IpAddress.isOne_effective]
  have hport' := hchecked.port
  rw [← hagrees, ← hexcluded]
  constructor
  · intro hall
    obtain ⟨other, hother, -, ⟨hsame, -⟩, hhostAgrees⟩ := hall.split
    rw [hsplit] at hother
    cases hother
    rw [hhost] at hhostAgrees
    exact ⟨hall.address.2, fun hdel => (hall.path.2.1 _ hdel).2 rfl, hhostAgrees⟩
  · rintro ⟨hnot, hdel, hhostAgrees⟩
    refine ⟨⟨ha, hnot⟩, by omega, ⟨hrequest.1.1, fun c hc => ⟨?_, ?_⟩, hrequest.2⟩, split, hsplit, hscheme,
      ⟨hhost, hport, hpath⟩, ?_⟩
    · exact of_decide_eq_true (hrequest.1.2 c hc)
    · rintro rfl
      exact hdel hc
    · rw [hhost]
      exact hhostAgrees

end

/-! ### Where the policies agree -/

/-- An endpoint that the first policy returns has a loopback address to connect to.  Unless this is the address of
IPv6, the second policy accepts the endpoint exactly if its path has no DEL and its host, where it is numeric, is the
address.  Whatever endpoint the second policy accepts has a loopback address to connect to. -/
theorem endpoint_policies_agree (U : UrlLibrary) :
    (∀ url allow resolver e, validateFakeLoopbackEndpoint U url allow resolver = .ok e →
      ∃ a, U.ipAddress e.connectHost = some a ∧ a.isLoopback U.mapped = true ∧
        (a.isOne = false → (validateLoopbackTransportEndpoint U e = .ok () ↔
          0x7F ∉ e.path ∧ ∀ b, U.ipAddress e.host = some b → b = a))) ∧
    ∀ e, validateLoopbackTransportEndpoint U e = .ok () →
      ∃ a, U.ipAddress e.connectHost = some a ∧ a.isLoopback U.mapped = true := by
  constructor
  · intro url allow resolver e h
    obtain ⟨hconfigured, -⟩ := configured_of_ok h
    obtain ⟨a, ha, hloopback⟩ := hconfigured.connect
    refine ⟨a, ha, hloopback, fun hone => ?_⟩
    have hagrees := hconfigured.agrees_iff hloopback
    rw [transport_ok_iff]
    constructor
    · rintro ⟨-, -, b, hb, hall⟩
      rw [ha] at hb
      cases hb
      exact (hagrees.1 hall).2
    · intro hrest
      have hne : e.connectHost ≠ [] := by
        intro hnil
        rw [hnil, U.ipAddress_nil] at ha
        cases ha
      exact ⟨hconfigured.scheme, hne, a, ha, hagrees.2 ⟨hone, hrest⟩⟩
  · intro e h
    obtain ⟨-, -, a, ha, hall⟩ := transport_ok_iff.1 h
    exact ⟨a, ha, hall.address.1⟩

/-- `urlsplit` of a URL with this host and port. -/
def sampleSplit (host : String) : SplitResult where
  scheme := chars "http"
  netloc := chars (host ++ ":1234")
  path := chars "/x"
  query := []
  fragment := []
  username := none
  password := none
  hostname := some (chars host)
  port := some 1234

/-- The library on the texts of two URLs and two addresses. -/
def sampleUrlLibrary : UrlLibrary where
  urlsplit url :=
    if url = chars "http://localhost:1234/x" then some (sampleSplit "localhost")
    else if url = chars "http://127.0.0.1:1234/x" then some (sampleSplit "127.0.0.1") else none
  ipAddress text :=
    if text = chars "127.0.0.1" then some (.v4 0x7F000001) else if text = chars "127.0.0.2" then some (.v4 0x7F000002)
    else none
  lower s := s.map fun c => if 0x41 ≤ c ∧ c ≤ 0x5A then c + 0x20 else c
  isSpace c := c = 0x20
  mapped := false
  ipAddress_nil := by decide
  lower_scheme := by
    intro url parsed h
    split at h
    · cases h
      decide
    · split at h
      · cases h
        decide
      · cases h

/-- The endpoint of a URL with this host when the resolver answers with this address. -/
def sampleEndpoint (host address : String) : Except Raised ValidatedEndpoint :=
  validateFakeLoopbackEndpoint sampleUrlLibrary (chars ("http://" ++ host ++ ":1234/x")) true
    fun _ _ => some [some (.inet, chars address)]

theorem endpoint_policies_agree_sample : ∃ e, sampleEndpoint "localhost" "127.0.0.1" = .ok e ∧
    ∃ a, sampleUrlLibrary.ipAddress e.connectHost = some a ∧ a.isLoopback false = true ∧
      (a.isOne = false → (validateLoopbackTransportEndpoint sampleUrlLibrary e = .ok () ↔
        0x7F ∉ e.path ∧ ∀ b, sampleUrlLibrary.ipAddress e.host = some b → b = a)) := by
  have h : sampleEndpoint "localhost" "127.0.0.1" = .ok ⟨chars "http://localhost:1234/x", chars "http",
      chars "localhost", chars "127.0.0.1", 1234, chars "/x", true⟩ := by rfl
  exact ⟨_, h, (endpoint_policies_agree sampleUrlLibrary).1 _ _ _ _ h⟩

/-- A numeric host for which the resolver answers with another loopback address is configured and then refused. -/
theorem resolved_elsewhere_is_refused : ¬ ∀ (U : UrlLibrary) url allow resolver e,
    validateFakeLoopbackEndpoint U url allow resolver = .ok e → validateLoopbackTransportEndpoint U e = .ok () := by
  intro hall
  have h : sampleEndpoint "127.0.0.1" "127.0.0.2" = .ok ⟨chars "http://127.0.0.1:1234/x", chars "http",
      chars "127.0.0.1", chars "127.0.0.2", 1234, chars "/x", true⟩ := by rfl
  have haccepted := hall _ _ _ _ _ h
  have hrefused : validateLoopbackTransportEndpoint sampleUrlLibrary ⟨chars "http://127.0.0.1:1234/x", chars "http",
      chars "127.0.0.1", chars "127.0.0.2", 1234, chars "/x", true⟩ = .error endpointRejection := by rfl
  rw [hrefused] at haccepted
  cases haccepted

end NativeMcp.Agent
