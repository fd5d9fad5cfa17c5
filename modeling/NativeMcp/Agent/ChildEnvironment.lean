import NativeMcp.Agent.Endpoints
import NativeMcp.Agent.Identifiers
import NativeMcp.Agent.Rereading

/-!
# The environment of a child

`build_child_environment` decides what a child process inherits.  A variable is there only if it is allowlisted, and no
variable that may hold a secret can be allowlisted (`ChildEnvironment`); what the parent holds under other names does
not matter (`buildChildEnvironment_noninterference`).
-/

namespace NativeMcp.Agent

/-- The arguments; a dictionary stands for any mapping from strings. -/
structure EnvironmentRequest where
  parent : PyVal
  allowlist : PyVal
  required : PyVal
  allowProxy : Bool
  providerChild : PyVal
  maxValueBytes : PyVal

/-! ### Names -/

/-- `_NEVER_ALLOW` -/
def neverAllow : List String :=
  ["OPENAI_API_KEY", "NVIDIA_API_KEY", "NIM_API_KEY", "API_KEY", "AUTHORIZATION", "PROXY_USER", "PROXY_PASSWORD",
    "SECRET_STORE_TOKEN", "VAULT_TOKEN", "HTTP_PROXY", "HTTPS_PROXY", "ALL_PROXY", "NO_PROXY"]

/-- `_SECRET_HINTS` -/
def secretHints : List String := ["API_KEY", "TOKEN", "PASSWORD", "SECRET", "AUTH", "CREDENTIAL"]

/-- `_PROVIDER_HINTS` -/
def providerHints : List String := ["PROVIDER", "OPENAI", "NVIDIA", "NIM", "MODEL_ENDPOINT", "MODEL_URL"]

/-- `_PROXY_NAMES` -/
def proxyNames : List String := ["HTTP_PROXY", "HTTPS_PROXY", "ALL_PROXY"]

/-- `_NO_PROXY_NAME` -/
def noProxyName : String := "NO_PROXY"

def isOneOf (names : List String) (s : Str) : Bool := names.any fun name => chars name == s

/-- `_NAME` -/
def isEnvironmentName (s : Str) : Bool :=
  s.head?.any (fun c => isAlphanumeric c && !isDigit c || c == 0x5F) && s.all fun c => isAlphanumeric c || c == 0x5F

/-- `_validate_name` -/
def validateName : PyVal → Except Raised Str
  | .str s => do
    require (isEnvironmentName s) .localValidationFailure
    return s
  | _ => .error (.provider .localValidationFailure)

def upperAscii (c : Nat) : Nat := if 0x61 ≤ c ∧ c ≤ 0x7A then c - 0x20 else c

/-- `name.upper()` of a name, which is ASCII. -/
def upper (name : Str) : Str := name.map upperAscii

/-- The variable may hold a secret or tell of a provider. -/
def isForbidden (upper : Str) : Bool := isOneOf neverAllow upper || containsAny (secretHints ++ providerHints) upper

/-! ### Proxies -/

def IpAddress.isV6 : IpAddress → Bool
  | .v4 _ => false
  | .v6 _ _ => true

/-- `[A-Za-z0-9](?:[A-Za-z0-9-]{0,61}[A-Za-z0-9])?` -/
def isDnsLabel (s : Str) : Bool :=
  s.head?.any isAlphanumeric && s.getLast?.any isAlphanumeric && s.all (fun c => isAlphanumeric c || c == 0x2D) &&
    s.length ≤ 63

/-- `_valid_dns_name` -/
def isDnsName (s : Str) : Bool :=
  ((if s.getLast? == some 0x2E then s.dropLast else s).splitOn 0x2E).all isDnsLabel && s.length ≤ 253

def isPrintableAscii (s : Str) : Bool := s.all fun c => 0x20 ≤ c && c < 0x7F

/-- `_validate_proxy` -/
def validateProxy (U : UrlLibrary) (value : Str) : Except Raised Unit := do
  require (isPrintableAscii value) .localValidationFailure
  require (!containsAny ["@", "\\", "?", "#"] value) .localValidationFailure
  let some parsed := U.urlsplit value | .error (.provider .localValidationFailure)
  require (isOneOf ["http", "https"] (U.lower parsed.scheme) && parsed.username.isNone && parsed.password.isNone)
    .localValidationFailure
  let some host := parsed.hostname | .error (.provider .localValidationFailure)
  let some port := parsed.port | .error (.provider .localValidationFailure)
  require (host ≠ [] && 1 ≤ port && port ≤ 65535 && parsed.query == [] && parsed.fragment == [] &&
    (parsed.path == [] || parsed.path == chars "/")) .localValidationFailure
  require ((U.ipAddress host).isSome || isDnsName host) .localValidationFailure

/-- `int(digits)`, which refuses more than 4300 digits with a plain `ValueError`. -/
def intOfDigits (digits : Str) : Except Raised Nat :=
  if digits.length ≤ 4300 then .ok (digits.foldl (fun n c => 10 * n + (c - 0x30)) 0) else .error .other

def validatePort : Option Str → Except Raised Unit
  | none => .ok ()
  | some digits => do
    require (digits ≠ [] && digits.all isDigit) .localValidationFailure
    let port ← intOfDigits digits
    require (1 ≤ port && port ≤ 65535) .localValidationFailure

/-- The host of an entry is an address in brackets, an address or a name; returns the port. -/
def noProxyPort (U : UrlLibrary) (entry : Str) : Except Raised (Option Str) :=
  if entry.head? == some 0x5B then
    match entry.findIdx? (· == 0x5D) with
    | none => .error (.provider .localValidationFailure)
    | some closing => do
      let remainder := entry.drop (closing + 1)
      require (remainder == [] || remainder.head? == some 0x3A) .localValidationFailure
      require ((U.ipAddress ((entry.take closing).drop 1)).any IpAddress.isV6) .localValidationFailure
      return if remainder == [] then none else some (remainder.drop 1)
  else do
    require (entry.count 0x3A ≤ 1) .localValidationFailure
    let host := entry.takeWhile (· ≠ 0x3A)
    let hostValue := if host.head? == some 0x2E then host.drop 1 else host
    require (if (U.ipAddress hostValue).any (!·.isV6) then host == hostValue else isDnsName hostValue)
      .localValidationFailure
    return if entry.contains 0x3A then some ((entry.dropWhile (· ≠ 0x3A)).drop 1) else none

def validateNoProxyEntry (U : UrlLibrary) (entry : Str) : Except Raised Unit :=
  if entry == chars "*" then .ok ()
  else do
    require (!containsAny ["://", "@", "/", "\\", "?", "#"] entry) .localValidationFailure
    let port ← noProxyPort U entry
    validatePort port

/-- `_validate_no_proxy` -/
def validateNoProxy (U : UrlLibrary) (value : Str) : Except Raised Unit := do
  require (value.all fun c => 0x20 < c && c < 0x7F) .localValidationFailure
  let entries := value.splitOn 0x2C
  require (entries.length ≤ 64 && entries.all (· ≠ [])) .localValidationFailure
  entries.forM (validateNoProxyEntry U)

/-! ### The environment -/

def environmentLimit : PyVal → Except Raised Nat
  | .int limit => do
    require (0 < limit && limit ≤ 64 * 1024) .localValidationFailure
    return limit.toNat
  | _ => .error (.provider .localValidationFailure)

/-- Proxies are for children that are no providers. -/
def checkChild (allowProxy : Bool) : PyVal → Except Raised Unit
  | .bool providerChild => require (!(allowProxy && providerChild)) .localPolicyFailure
  | _ => .error (.provider .localPolicyFailure)

/-- A string without NUL. -/
def isEnvironmentText : PyVal → Bool
  | .str s => !s.contains 0
  | _ => false

def validateInherited (p : Str × PyVal) : Except Raised Unit := do
  require (isEnvironmentName p.1) .localValidationFailure
  require (isEnvironmentText p.2) .localValidationFailure

def inheritedVariables : PyVal → Except Raised (List (Str × PyVal))
  | .dict _ members => do
    members.forM validateInherited
    return members
  | _ => .error (.provider .localValidationFailure)

def allowlistedNames (allowlist : PyVal) : Except Raised (List Str) :=
  match allowlist.sequence? with
  | none => .error (.provider .localValidationFailure)
  | some items => do
    let names ← items.mapM validateName
    require (decide names.Nodup) .localValidationFailure
    return names

def requiredVariables : PyVal → Except Raised (List (Str × PyVal))
  | .none => .ok []
  | .dict _ members => do
    members.forM fun p => require (isEnvironmentName p.1) .localValidationFailure
    return members
  | _ => .error (.provider .localValidationFailure)

/-- What the variable would be: `None` among the required values hides what is inherited. -/
def requestedValue (values parent : List (Str × PyVal)) (name : Str) : Option PyVal :=
  (values.lookup name).or (parent.lookup name)

/-- The value that the child gets. -/
def checkText (U : UrlLibrary) (limit : Nat) (upper s : Str) : Except Raised Unit := do
  require (!s.contains 0) .localValidationFailure
  let some size := encodedSize s | .error .other
  require (size ≤ limit) .localValidationFailure
  if isOneOf proxyNames upper then validateProxy U s
  else if upper == chars noProxyName then validateNoProxy U s
  else .ok ()

def childValue (U : UrlLibrary) (limit : Nat) (allowProxy : Bool) (name : Str) (value : Option PyVal) :
    Except Raised (Option Str) := do
  require (!isForbidden (upper name) || (isOneOf (noProxyName :: proxyNames) (upper name) && allowProxy))
    .localPolicyFailure
  match value with
  | none => return none
  | some .none => return none
  | some (.str s) =>
    checkText U limit (upper name) s
    return some s
  | some _ => .error (.provider .localValidationFailure)

/-- The variables of the child, in the order of the names. -/
def childVariables (U : UrlLibrary) (limit : Nat) (allowProxy : Bool) (value : Str → Option PyVal) :
    List Str → Except Raised (List (Str × Str))
  | [] => .ok []
  | name :: names => do
    let text ← childValue U limit allowProxy name (value name)
    let rest ← childVariables U limit allowProxy value names
    return (text.map (name, ·)).toList ++ rest

/-- `sorted(names)` -/
def sortNames (names : List Str) : List Str := (sortItems (names.map (·, ()))).map Prod.fst

/-- `build_child_environment` -/
def buildChildEnvironment (U : UrlLibrary) (r : EnvironmentRequest) : Except Raised (List (Str × Str)) := do
  let limit ← environmentLimit r.maxValueBytes
  checkChild r.allowProxy r.providerChild
  let parent ← inheritedVariables r.parent
  let names ← allowlistedNames r.allowlist
  let values ← requiredVariables r.required
  require (values.all fun p => names.contains p.1) .localValidationFailure
  childVariables U limit r.allowProxy (requestedValue values parent) (sortNames names)

/-! ### Names that are allowlisted -/

section

variable {U : UrlLibrary} {limit : Nat} {allowProxy : Bool} {name s : Str} {names names' : List Str}
  {value value' : Str → Option PyVal} {result : List (Str × Str)}

private def validText : PyVal → Bool
  | .str s => isEnvironmentName s
  | _ => false

private def textOf : PyVal → Str
  | .str s => s
  | _ => []

private theorem validateName_eq (v : PyVal) :
    validateName v = if validText v = true then .ok (textOf v) else .error (.provider .localValidationFailure) := by
  cases v with
  | str s =>
    show (do require (isEnvironmentName s) .localValidationFailure; return s) =
      if isEnvironmentName s = true then .ok s else .error (.provider .localValidationFailure)
    cases isEnvironmentName s <;> rfl
  | _ => rfl

private theorem mapM_validateName (items : List PyVal) :
    items.mapM validateName = if items.all validText = true then .ok (items.map textOf)
      else .error (.provider .localValidationFailure) := by
  induction items with
  | nil => rfl
  | cons v items ih =>
    rw [List.mapM_cons, validateName_eq, ih, List.all_cons]
    by_cases hv : validText v = true
    · rw [if_pos hv, hv, Bool.true_and]
      by_cases hitems : items.all validText = true
      · rw [if_pos hitems, if_pos hitems]
        rfl
      · rw [if_neg hitems, if_neg hitems]
        rfl
    · rw [if_neg hv, if_neg (fun h => hv (Bool.and_eq_true_iff.1 h).1)]
      rfl

private theorem allowlistedNames_eq {allowlist : PyVal} {items : List PyVal} (h : allowlist.sequence? = some items) :
    allowlistedNames allowlist = if items.all validText = true ∧ (items.map textOf).Nodup then .ok (items.map textOf)
      else .error (.provider .localValidationFailure) := by
  unfold allowlistedNames
  rw [h]
  dsimp only
  rw [mapM_validateName]
  by_cases hvalid : items.all validText = true
  · rw [if_pos hvalid]
    by_cases hnodup : (items.map textOf).Nodup
    · rw [if_pos ⟨hvalid, hnodup⟩, ok_bind, decide_eq_true hnodup]
      rfl
    · rw [if_neg (fun h => hnodup h.2), ok_bind, decide_eq_false hnodup]
      rfl
  · rw [if_neg hvalid, if_neg (fun h => hvalid h.1)]
    rfl

/-- The names of an allowlist are distinct, and each is one. -/
private theorem allowlistedNames_ok {allowlist : PyVal} (h : allowlistedNames allowlist = .ok names) :
    ∃ items, allowlist.sequence? = some items ∧ items = names.map PyVal.str ∧ names.Nodup ∧
      ∀ name ∈ names, isEnvironmentName name = true := by
  cases hitems : allowlist.sequence? with
  | none =>
    unfold allowlistedNames at h
    rw [hitems] at h
    cases h
  | some items =>
    rw [allowlistedNames_eq hitems] at h
    split at h
    · rename_i hvalid
      obtain ⟨hvalid, hnodup⟩ := hvalid
      cases h
      rw [List.all_eq_true] at hvalid
      have htext : ∀ v ∈ items, v = .str (textOf v) ∧ isEnvironmentName (textOf v) = true := by
        intro v hv
        have h := hvalid v hv
        cases v with
        | str s => exact ⟨rfl, h⟩
        | _ => cases h
      refine ⟨items, rfl, ?_, hnodup, ?_⟩
      · rw [List.map_map]
        conv_lhs => rw [← List.map_id items]
        exact List.map_congr_left fun v hv => (htext v hv).1
      · intro name hname
        obtain ⟨v, hv, rfl⟩ := List.mem_map.1 hname
        exact (htext v hv).2
    · cases h

/-! ### The order of the names -/

private theorem map_fst_units (names : List Str) : (names.map (·, ())).map Prod.fst = names := by
  rw [List.map_map]
  exact List.map_id names

theorem sortNames_perm (names : List Str) : (sortNames names).Perm names := by
  have h := (sortItems_perm (names.map (·, ()))).map Prod.fst
  rw [map_fst_units] at h
  exact h

theorem sortNames_increasing (h : names.Nodup) : (sortNames names).Pairwise (· < ·) := by
  have hkeys : ((names.map (·, ())).map Prod.fst).Nodup := by
    rw [map_fst_units]
    exact h
  exact List.pairwise_map.2 (sortItems_increasing hkeys)

/-- The order of the allowlist does not matter. -/
theorem sortNames_eq_of_perm (h : names.Perm names') (hnodup : names.Nodup) : sortNames names = sortNames names' := by
  have hperm : (sortNames names).Perm (sortNames names') :=
    (sortNames_perm names).trans (h.trans (sortNames_perm names').symm)
  have hantisymm : ∀ a b : Str, a ∈ sortNames names → b ∈ sortNames names' → a < b → b < a → a = b := by
    intro a b _ _ hab hba
    exact absurd (List.lt_trans hab hba) (List.lt_irrefl a)
  exact hperm.eq_of_pairwise hantisymm (sortNames_increasing hnodup)
    (sortNames_increasing (h.nodup_iff.1 hnodup))

/-! ### Values -/

/-- The value as a string; there is none to pass on if it is absent or `None`. -/
private def stringOf : Option PyVal → Option Str
  | some (.str s) => some s
  | _ => none

private theorem stringOf_eq_some {v : Option PyVal} : stringOf v = some s ↔ v = some (.str s) := by
  cases v with
  | none => exact ⟨fun h => (by cases h), fun h => (by cases h)⟩
  | some v =>
    cases v with
    | str t =>
      constructor
      · intro h
        rw [Option.some.inj h]
      · intro h
        cases h
        rfl
    | _ => exact ⟨fun h => (by cases h), fun h => (by cases h)⟩

private theorem containsText_singleton {c : Nat} (h : c ∈ s) : containsText [c] s = true := by
  obtain ⟨before, behind, rfl⟩ := List.append_of_mem h
  refine List.any_eq_true.2 ⟨c :: behind, (List.mem_tails _ _).2 (List.suffix_append _ _), ?_⟩
  exact List.isPrefixOf_iff_prefix.2 (List.prefix_append [c] behind)

/-- What stands in no entry and is no comma does not stand in the text. -/
private theorem mem_splitOn {c sep : Nat} (hc : c ∈ s) (hne : c ≠ sep) : ∃ entry ∈ s.splitOn sep, c ∈ entry := by
  have hjoined : [sep].intercalate (s.splitOn sep) = s := List.intercalate_splitOn sep
  rw [← hjoined] at hc
  generalize s.splitOn sep = entries at hc
  induction entries with
  | nil => cases hc
  | cons entry entries ih =>
    cases entries with
    | nil =>
      rw [List.intercalate_singleton] at hc
      exact ⟨entry, List.mem_cons_self, hc⟩
    | cons entry' entries =>
      rw [List.intercalate_cons_cons, List.mem_append, List.mem_append] at hc
      rcases hc with (hc | hc) | hc
      · exact ⟨entry, List.mem_cons_self, hc⟩
      · exact absurd (List.mem_singleton.1 hc) hne
      · obtain ⟨found, hfound, hmem⟩ := ih hc
        exact ⟨found, List.mem_cons_of_mem _ hfound, hmem⟩

/-- The characters that begin or end the parts of a URL where credentials may be. -/
def urlMarks : Str := chars "@\\?#"

private theorem markless {parts : List String} (hparts : ∀ c ∈ urlMarks, ∃ part ∈ parts, chars part = [c])
    (h : (!containsAny parts s) = true) : ∀ c ∈ s, c ∉ urlMarks := by
  intro c hc hmark
  obtain ⟨part, hpart, htext⟩ := hparts c hmark
  have hfound : containsAny parts s = true := by
    refine List.any_eq_true.2 ⟨part, hpart, ?_⟩
    rw [htext]
    exact containsText_singleton hc
  rw [hfound] at h
  cases h

private theorem validateProxy_markless (h : validateProxy U s = .ok ()) : ∀ c ∈ s, c ∉ urlMarks := by
  unfold validateProxy at h
  obtain ⟨-, h⟩ := require_bind_eq_ok.1 h
  obtain ⟨hmarks, -⟩ := require_bind_eq_ok.1 h
  exact markless (by decide) hmarks

private theorem validateNoProxy_markless (h : validateNoProxy U s = .ok ()) : ∀ c ∈ s, c ∉ urlMarks := by
  unfold validateNoProxy at h
  obtain ⟨-, h⟩ := require_bind_eq_ok.1 h
  obtain ⟨-, hentries⟩ := require_bind_eq_ok.1 h
  intro c hc hmark
  have hcomma : c ≠ 0x2C := by
    intro heq
    rw [heq] at hmark
    revert hmark
    decide
  obtain ⟨entry, hentry, hmem⟩ := mem_splitOn hc hcomma
  have hvalid := ok_of_forM hentries entry hentry
  unfold validateNoProxyEntry at hvalid
  by_cases hstar : (entry == chars "*") = true
  · rw [eq_of_beq hstar] at hmem
    rw [List.mem_singleton.1 hmem] at hmark
    revert hmark
    decide
  · rw [if_neg hstar] at hvalid
    obtain ⟨hmarks, -⟩ := require_bind_eq_ok.1 hvalid
    exact markless (by decide) hmarks c hmem hmark

/-- A value that a child may have. -/
structure FitText (limit : Nat) (name s : Str) : Prop where
  noNul : 0 ∉ s
  bounded : ∃ size, encodedSize s = some size ∧ size ≤ limit
  plain : isOneOf (noProxyName :: proxyNames) (upper name) = true → ∀ c ∈ s, c ∉ urlMarks

private theorem checkText_fit (h : checkText U limit (upper name) s = .ok ()) : FitText limit name s := by
  unfold checkText at h
  obtain ⟨hnul, h⟩ := require_bind_eq_ok.1 h
  cases hsize : encodedSize s with
  | none =>
    rw [hsize] at h
    cases h
  | some size =>
    rw [hsize] at h
    obtain ⟨hlimit, h⟩ := require_bind_eq_ok.1 h
    refine ⟨?_, ⟨size, hsize, of_decide_eq_true hlimit⟩, ?_⟩
    · intro hmem
      rw [List.contains_iff_mem.2 hmem] at hnul
      cases hnul
    · intro hproxy
      by_cases hname : isOneOf proxyNames (upper name) = true
      · rw [if_pos hname] at h
        exact validateProxy_markless h
      · rw [if_neg hname] at h
        by_cases hno : (upper name == chars noProxyName) = true
        · rw [if_pos hno] at h
          exact validateNoProxy_markless h
        · exfalso
          unfold isOneOf at hproxy hname
          rw [List.any_cons, Bool.or_eq_true] at hproxy
          rcases hproxy with hproxy | hproxy
          · rw [← eq_of_beq hproxy] at hno
            exact hno (beq_self_eq_true _)
          · exact hname hproxy

/-! ### The variables -/

/-- The name may be allowlisted. -/
def isAdmissible (allowProxy : Bool) (name : Str) : Bool :=
  !isForbidden (upper name) || (isOneOf (noProxyName :: proxyNames) (upper name) && allowProxy)

private theorem childValue_ok {v : Option PyVal} {text : Option Str}
    (h : childValue U limit allowProxy name v = .ok text) :
    isAdmissible allowProxy name = true ∧ text = stringOf v ∧
      ∀ s, v = some (.str s) → checkText U limit (upper name) s = .ok () := by
  unfold childValue at h
  obtain ⟨hname, h⟩ := require_bind_eq_ok.1 h
  refine ⟨hname, ?_⟩
  cases v with
  | none =>
    cases h
    exact ⟨rfl, fun s hs => (by cases hs)⟩
  | some v =>
    cases v with
    | none =>
      cases h
      exact ⟨rfl, fun s hs => (by cases hs)⟩
    | str s =>
      obtain ⟨htext, h⟩ := bind_eq_ok_iff.1 h
      cases h
      refine ⟨rfl, ?_⟩
      intro t ht
      cases ht
      exact htext
    | _ => cases h

private theorem childValue_of_text (hname : isAdmissible allowProxy name = true) {text : Option Str}
    (h : ∀ s, text = some s → checkText U limit (upper name) s = .ok ()) :
    childValue U limit allowProxy name (text.map .str) = .ok text := by
  unfold childValue
  refine require_bind_eq_ok.2 ⟨hname, ?_⟩
  cases text with
  | none => rfl
  | some s => exact bind_eq_ok_iff.2 ⟨h s rfl, rfl⟩

/-- The child has the variables that have a value, in the order of the names. -/
private def assigned (value : Str → Option PyVal) (names : List Str) : List (Str × Str) :=
  names.filterMap fun name => (stringOf (value name)).map (name, ·)

private theorem childVariables_eq_ok_iff :
    childVariables U limit allowProxy value names = .ok result ↔
      (∀ name ∈ names, childValue U limit allowProxy name (value name) = .ok (stringOf (value name))) ∧
        result = assigned value names := by
  induction names generalizing result with
  | nil =>
    constructor
    · intro h
      cases h
      exact ⟨fun name hname => (by cases hname), rfl⟩
    · intro h
      rw [h.2]
      rfl
  | cons name names ih =>
    have hassigned : ∀ text, text = stringOf (value name) →
        (text.map (name, ·)).toList ++ assigned value names = assigned value (name :: names) := by
      intro text htext
      unfold assigned
      rw [List.filterMap_cons, ← htext]
      cases text <;> rfl
    constructor
    · intro h
      obtain ⟨text, htext, h⟩ := ok_of_bind h
      obtain ⟨rest, hrest, h⟩ := ok_of_bind h
      obtain ⟨-, hstring, -⟩ := childValue_ok htext
      obtain ⟨hall, rfl⟩ := ih.1 hrest
      cases h
      rw [hstring] at htext
      exact ⟨List.forall_mem_cons.2 ⟨htext, hall⟩, hassigned text hstring⟩
    · rintro ⟨h, rfl⟩
      obtain ⟨hname, hall⟩ := List.forall_mem_cons.1 h
      rw [childVariables, hname, ok_bind, ih.2 ⟨hall, rfl⟩, ok_bind, ← hassigned _ rfl]
      rfl

private theorem mem_assigned : (name, s) ∈ assigned value names ↔ name ∈ names ∧ value name = some (.str s) := by
  unfold assigned
  rw [List.mem_filterMap]
  constructor
  · rintro ⟨other, hother, h⟩
    obtain ⟨t, ht, heq⟩ := Option.map_eq_some_iff.1 h
    cases heq
    exact ⟨hother, stringOf_eq_some.1 ht⟩
  · intro h
    refine ⟨name, h.1, ?_⟩
    rw [stringOf_eq_some.2 h.2]
    rfl

private theorem assigned_increasing (h : names.Pairwise (· < ·)) : Increasing (assigned value names) := by
  refine List.pairwise_filterMap.2 (h.imp ?_)
  intro a b hab p hp q hq
  obtain ⟨t, -, rfl⟩ := Option.map_eq_some_iff.1 hp
  obtain ⟨u, -, rfl⟩ := Option.map_eq_some_iff.1 hq
  exact hab

/-- Only the values of the names count. -/
private theorem childVariables_congr (h : ∀ name ∈ names, value name = value' name) :
    childVariables U limit allowProxy value names = childVariables U limit allowProxy value' names := by
  induction names with
  | nil => rfl
  | cons name names ih =>
    obtain ⟨hname, hnames⟩ := List.forall_mem_cons.1 h
    rw [childVariables, childVariables, hname, ih hnames]

/-! ### What a child inherits -/

/-- The environment of a child: the allowlisted variables that have a value, none of which may hold a secret. -/
structure ChildEnvironment (r : EnvironmentRequest) (limit : Nat) (names : List Str) (value : Str → Option PyVal)
    (result : List (Str × Str)) : Prop where
  sorted : Increasing result
  exact : ∀ name s, (name, s) ∈ result ↔ name ∈ names ∧ value name = some (.str s)
  admissible : ∀ name ∈ names, isEnvironmentName name = true ∧ (isForbidden (upper name) = true →
    isOneOf (noProxyName :: proxyNames) (upper name) = true ∧ r.allowProxy = true ∧ r.providerChild = .bool false)
  fit : ∀ p ∈ result, FitText limit p.1 p.2

/-- The same request in the environment of the child. -/
def EnvironmentRequest.again (r : EnvironmentRequest) (result : List (Str × Str)) : EnvironmentRequest :=
  { r with parent := .dict false (result.map fun p => (p.1, .str p.2)), required := .none }

/-- What the arguments of a request that is granted are. -/
structure Granted (r : EnvironmentRequest) (limit : Nat) (names : List Str) (parent values : List (Str × PyVal)) :
    Prop where
  limitOk : environmentLimit r.maxValueBytes = .ok limit
  childOk : checkChild r.allowProxy r.providerChild = .ok ()
  parentOk : inheritedVariables r.parent = .ok parent
  namesOk : allowlistedNames r.allowlist = .ok names
  valuesOk : requiredVariables r.required = .ok values
  allowlisted : (values.all fun p => names.contains p.1) = true

private theorem buildChildEnvironment_eq_ok_iff {r : EnvironmentRequest} :
    buildChildEnvironment U r = .ok result ↔ ∃ limit names parent values, Granted r limit names parent values ∧
      childVariables U limit r.allowProxy (requestedValue values parent) (sortNames names) = .ok result := by
  constructor
  · intro h
    obtain ⟨limit, hlimit, h⟩ := ok_of_bind h
    obtain ⟨hchild, h⟩ := bind_eq_ok_iff.1 h
    obtain ⟨parent, hparent, h⟩ := ok_of_bind h
    obtain ⟨names, hnames, h⟩ := ok_of_bind h
    obtain ⟨values, hvalues, h⟩ := ok_of_bind h
    obtain ⟨hallowlisted, h⟩ := require_bind_eq_ok.1 h
    exact ⟨limit, names, parent, values, ⟨hlimit, hchild, hparent, hnames, hvalues, hallowlisted⟩, h⟩
  · rintro ⟨limit, names, parent, values, hgranted, h⟩
    unfold buildChildEnvironment
    rw [hgranted.limitOk, ok_bind, hgranted.childOk, ok_bind, hgranted.parentOk, ok_bind, hgranted.namesOk, ok_bind,
      hgranted.valuesOk, ok_bind]
    exact require_bind_eq_ok.2 ⟨hgranted.allowlisted, h⟩

private theorem providerChild_of_allowProxy {v : PyVal} (h : checkChild true v = .ok ()) : v = .bool false := by
  cases v with
  | bool b =>
    cases b with
    | false => rfl
    | true => cases h
  | _ => cases h

private theorem Granted.childEnvironment {r : EnvironmentRequest} {parent values : List (Str × PyVal)}
    (hgranted : Granted r limit names parent values)
    (h : childVariables U limit r.allowProxy (requestedValue values parent) (sortNames names) = .ok result) :
    ChildEnvironment r limit names (requestedValue values parent) result := by
  obtain ⟨hvalues, rfl⟩ := childVariables_eq_ok_iff.1 h
  obtain ⟨items, -, -, hnodup, hvalid⟩ := allowlistedNames_ok hgranted.namesOk
  have hmem : ∀ name, name ∈ sortNames names ↔ name ∈ names := fun name => (sortNames_perm names).mem_iff
  refine ⟨assigned_increasing (sortNames_increasing hnodup), ?_, ?_, ?_⟩
  · intro name s
    rw [mem_assigned, hmem]
  · intro name hname
    refine ⟨hvalid name hname, ?_⟩
    intro hforbidden
    obtain ⟨hadmissible, -, -⟩ := childValue_ok (hvalues name ((hmem name).2 hname))
    unfold isAdmissible at hadmissible
    rw [hforbidden, Bool.not_true, Bool.false_or, Bool.and_eq_true] at hadmissible
    obtain ⟨hproxy, hallow⟩ := hadmissible
    have hchild := hgranted.childOk
    rw [hallow] at hchild
    exact ⟨hproxy, hallow, providerChild_of_allowProxy hchild⟩
  · intro p hp
    obtain ⟨hname, hvalue⟩ := mem_assigned.1 hp
    obtain ⟨-, -, htext⟩ := childValue_ok (hvalues p.1 hname)
    exact checkText_fit (htext p.2 hvalue)

/-- The variables of a child can be inherited. -/
private theorem inheritedVariables_result {members : List (Str × PyVal)}
    (h : ∀ p ∈ members, isEnvironmentName p.1 = true ∧ isEnvironmentText p.2 = true) :
    inheritedVariables (.dict false members) = .ok members := by
  have hall : members.forM validateInherited = .ok () := by
    induction members with
    | nil => rfl
    | cons p members ih =>
      obtain ⟨⟨hname, htext⟩, hmembers⟩ := List.forall_mem_cons.1 h
      have hp : validateInherited p = .ok () :=
        require_bind_eq_ok.2 ⟨hname, require_eq_ok_iff.2 htext⟩
      show (validateInherited p >>= fun _ => members.forM validateInherited) = .ok ()
      rw [hp, ok_bind]
      exact ih hmembers
  unfold inheritedVariables
  dsimp only
  rw [hall]
  rfl

private theorem lookup_result :
    (result.map fun p => (p.1, PyVal.str p.2)).lookup name = (result.lookup name).map PyVal.str := by
  induction result with
  | nil => rfl
  | cons p result ih =>
    rw [List.map_cons, List.lookup_cons, List.lookup_cons, ih]
    cases name == p.1 <;> rfl

/-- A child inherits what is allowlisted and no secret, and passes the same on. -/
theorem buildChildEnvironment_correct {r : EnvironmentRequest} (h : buildChildEnvironment U r = .ok result) :
    (∃ limit names parent values, Granted r limit names parent values ∧
      ChildEnvironment r limit names (requestedValue values parent) result) ∧
      buildChildEnvironment U (r.again result) = .ok result := by
  obtain ⟨limit, names, parent, values, hgranted, hresult⟩ := buildChildEnvironment_eq_ok_iff.1 h
  have henvironment := hgranted.childEnvironment hresult
  refine ⟨⟨limit, names, parent, values, hgranted, henvironment⟩, ?_⟩
  obtain ⟨hvalues, hassigned⟩ := childVariables_eq_ok_iff.1 hresult
  have hparent : inheritedVariables (r.again result).parent = .ok (result.map fun p => (p.1, PyVal.str p.2)) := by
    apply inheritedVariables_result
    intro p hp
    obtain ⟨q, hq, rfl⟩ := List.mem_map.1 hp
    have hname := ((henvironment.exact q.1 q.2).1 hq).1
    refine ⟨(henvironment.admissible q.1 hname).1, ?_⟩
    show (!q.2.contains 0) = true
    rw [Bool.not_eq_true', ← Bool.not_eq_true, List.contains_iff_mem]
    exact (henvironment.fit q hq).noNul
  have hagain : Granted (r.again result) limit names (result.map fun p => (p.1, PyVal.str p.2)) [] :=
    ⟨hgranted.limitOk, hgranted.childOk, hparent, hgranted.namesOk, rfl, rfl⟩
  refine buildChildEnvironment_eq_ok_iff.2 ⟨limit, names, _, [], hagain, ?_⟩
  -- in the child every name has the value that was passed on
  have hnodup : (result.map Prod.fst).Nodup :=
    List.nodup_iff_pairwise_ne.2 (List.pairwise_map.2 (henvironment.sorted.imp fun hlt heq => by
      rw [heq] at hlt
      exact List.lt_irrefl _ hlt))
  have hsame : ∀ name ∈ sortNames names, requestedValue [] (result.map fun p => (p.1, PyVal.str p.2)) name =
      (stringOf (requestedValue values parent name)).map PyVal.str := by
    intro name hname
    show (result.map fun p => (p.1, PyVal.str p.2)).lookup name = _
    rw [lookup_result]
    congr 1
    cases hstring : stringOf (requestedValue values parent name) with
    | some s =>
      rw [Registry.lookup_eq_some_iff hnodup, hassigned, mem_assigned]
      exact ⟨hname, stringOf_eq_some.1 hstring⟩
    | none =>
      rw [Registry.lookup_eq_none_iff]
      intro s hs
      rw [hassigned, mem_assigned] at hs
      rw [stringOf_eq_some.2 hs.2] at hstring
      cases hstring
  rw [childVariables_congr hsame]
  refine childVariables_eq_ok_iff.2 ⟨?_, ?_⟩
  · intro name hname
    obtain ⟨hadmissible, -, htext⟩ := childValue_ok (hvalues name hname)
    have hstring : ∀ text : Option Str, stringOf (text.map PyVal.str) = text := fun text => by cases text <;> rfl
    rw [hstring]
    exact childValue_of_text hadmissible fun s hs => htext s (stringOf_eq_some.1 hs)
  · rw [hassigned]
    unfold assigned
    have hstring : ∀ text : Option Str, stringOf (text.map PyVal.str) = text := fun text => by cases text <;> rfl
    exact congrArg (List.filterMap · _) (funext fun name => by rw [hstring])

/-- A parent that holds a key, and whose proxies a child may know. -/
def sampleParent : List (Str × PyVal) :=
  [(chars "OPENAI_API_KEY", .str (chars "key")), (chars "PATH", .str (chars "/usr/bin")),
    (chars "LANG", .str (chars "C.UTF-8")), (chars "NO_PROXY", .str (chars "*,.example.com,example.org:8443"))]

def sampleRequest : EnvironmentRequest where
  parent := .dict false sampleParent
  allowlist := .list [.str (chars "PATH"), .str (chars "NO_PROXY"), .str (chars "LANG"), .str (chars "TZ")]
  required := .dict false [(chars "LANG", .str (chars "C"))]
  allowProxy := true
  providerChild := .bool false
  maxValueBytes := .int 4096

def sampleEnvironment : List (Str × Str) :=
  [(chars "LANG", chars "C"), (chars "NO_PROXY", chars "*,.example.com,example.org:8443"),
    (chars "PATH", chars "/usr/bin")]

private theorem build_sample : buildChildEnvironment sampleUrlLibrary sampleRequest = .ok sampleEnvironment := by
  decide +kernel

theorem buildChildEnvironment_correct_sample :
    (∃ limit names parent values, Granted sampleRequest limit names parent values ∧
      ChildEnvironment sampleRequest limit names (requestedValue values parent) sampleEnvironment) ∧
      buildChildEnvironment sampleUrlLibrary (sampleRequest.again sampleEnvironment) = .ok sampleEnvironment :=
  buildChildEnvironment_correct build_sample

/-! ### What does not matter -/

/-- The order of the allowlist, and what the parent holds under other names, does not matter. -/
theorem buildChildEnvironment_noninterference {r : EnvironmentRequest} {allowlist' : PyVal} {items items' : List PyVal}
    {parent' : PyVal} {members members' : List (Str × PyVal)} (hitems : r.allowlist.sequence? = some items)
    (hitems' : allowlist'.sequence? = some items') (hperm : items.Perm items')
    (hparent : inheritedVariables r.parent = .ok members) (hparent' : inheritedVariables parent' = .ok members')
    (hagree : ∀ name, .str name ∈ items → members.lookup name = members'.lookup name) :
    buildChildEnvironment U { r with parent := parent', allowlist := allowlist' } = buildChildEnvironment U r := by
  have hvalid : items.all validText = items'.all validText := hperm.all_eq
  have hnodup : (items.map textOf).Nodup ↔ (items'.map textOf).Nodup := (hperm.map textOf).nodup_iff
  unfold buildChildEnvironment
  dsimp only
  cases environmentLimit r.maxValueBytes with
  | error raised => rfl
  | ok limit =>
    rw [ok_bind, ok_bind]
    cases checkChild r.allowProxy r.providerChild with
    | error raised => rfl
    | ok u =>
      rw [ok_bind, ok_bind, hparent, hparent', ok_bind, ok_bind, allowlistedNames_eq hitems,
        allowlistedNames_eq hitems']
      by_cases hnames : items.all validText = true ∧ (items.map textOf).Nodup
      · rw [if_pos hnames, if_pos ⟨hvalid.symm.trans hnames.1, hnodup.1 hnames.2⟩, ok_bind, ok_bind]
        cases requiredVariables r.required with
        | error raised => rfl
        | ok values =>
          have hcontains : (values.all fun p => (items'.map textOf).contains p.1) =
              values.all fun p => (items.map textOf).contains p.1 := by
            congr 1
            funext p
            rw [Bool.eq_iff_iff, List.contains_iff_mem, List.contains_iff_mem]
            exact (hperm.map textOf).mem_iff.symm
          have hvalue : ∀ name ∈ sortNames (items.map textOf),
              requestedValue values members' name = requestedValue values members name := by
            intro name hname
            obtain ⟨v, hv, rfl⟩ := List.mem_map.1 ((sortNames_perm _).mem_iff.1 hname)
            have htext : .str (textOf v) = v := by
              have h := List.all_eq_true.1 hnames.1 v hv
              cases v with
              | str s => rfl
              | _ => cases h
            unfold requestedValue
            rw [hagree (textOf v) (by rw [htext]; exact hv)]
          rw [ok_bind, ok_bind, hcontains, ← sortNames_eq_of_perm (hperm.map textOf) hnames.2,
            childVariables_congr hvalue]
      · rw [if_neg hnames, if_neg fun h => hnames ⟨hvalid.trans h.1, hnodup.2 h.2⟩]
        rfl

/-- Another parent with the same variables for the child. -/
def otherParent : List (Str × PyVal) :=
  [(chars "LANG", .str (chars "C.UTF-8")), (chars "VAULT_TOKEN", .str (chars "other")),
    (chars "NO_PROXY", .str (chars "*,.example.com,example.org:8443")), (chars "PATH", .str (chars "/usr/bin"))]

theorem buildChildEnvironment_noninterference_sample :
    buildChildEnvironment sampleUrlLibrary { sampleRequest with
        parent := .dict false otherParent
        allowlist := .tuple [.str (chars "TZ"), .str (chars "LANG"), .str (chars "NO_PROXY"), .str (chars "PATH")] } =
      buildChildEnvironment sampleUrlLibrary sampleRequest := by
  refine buildChildEnvironment_noninterference rfl rfl ?_ rfl rfl ?_
  · exact (List.reverse_perm _).symm
  · intro name hname
    have hnames : name = chars "PATH" ∨ name = chars "NO_PROXY" ∨ name = chars "LANG" ∨ name = chars "TZ" := by
      simpa using hname
    rcases hnames with rfl | rfl | rfl | rfl <;> rfl

end

end NativeMcp.Agent
