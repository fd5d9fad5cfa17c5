import NativeMcp.Server.JsonText
import NativeMcp.Tools.FilePolicy
import NativeMcp.Tools.ProcessObservation

/-!
# The runtime policy configuration

`parse_filesystem_policy_config` and `parse_runtime_policy_config`.  Version 1 hands its text to the former; version 2
serializes a document of version 1 around its roots and hands over that text.
-/

namespace NativeMcp

/-- `size()` -/
def Json.size : Json → Nat
  | .null => 0
  | .array items => items.length
  | .object members => members.length
  | _ => 1

/-! ### `parse_filesystem_policy_config` -/

structure FilesystemPolicyLimits where
  maxConfigBytes : Nat := 64 * 1024
  maxRoots : Nat := 16
  deriving DecidableEq, Repr

structure RootPolicyConfig where
  name : Bytes
  path : Bytes
  maxFileBytes : Nat
  deriving DecidableEq, Repr

structure FilesystemPolicyConfig where
  roots : List RootPolicyConfig := []
  deriving DecidableEq, Repr

namespace RuntimeConfig

def kConfigJsonLimits : JsonSafetyLimits where
  maxNestingDepth := 32
  maxTokens := 4 * 1024

/-- The roots of a document that matches schema version 1. -/
def rootsOf (document : Json) : Option (List Json) :=
  if document.isObject && document.size == 2 then
    match document.find? "version", document.find? "roots" with
    | some (.numberUnsigned version), some (.array roots) => if version = 1 then some roots else none
    | _, _ => none
  else none

def readRoot (value : Json) : Option RootPolicyConfig :=
  if value.isObject && value.size == 3 then
    match value.find? "name", value.find? "path", value.find? "maxFileBytes" with
    | some (.string name), some (.string path), some (.numberUnsigned fileLimit) => some ⟨name, path, fileLimit⟩
    | _, _, _ => none
  else none

/-- The configuration with these root entries. -/
def configOfRoots (limits : FilesystemPolicyLimits) (roots : List Json) : Except PolicyError FilesystemPolicyConfig :=
  if roots.isEmpty || limits.maxRoots < roots.length then
    .error (FilePolicy.error .tooManyRoots "configuration root count is outside the accepted range")
  else
    match roots.mapM readRoot with
    | none => .error (FilePolicy.error .invalidConfig "root entry contains missing, extra, or invalid fields")
    | some roots => .ok ⟨roots⟩

def parseFilesystemPolicyConfig (N : Nlohmann) (text : Bytes) (limits : FilesystemPolicyLimits) :
    Except PolicyError FilesystemPolicyConfig :=
  if limits.maxConfigBytes < text.length then
    .error (FilePolicy.error .configTooLarge "configuration exceeds the byte limit")
  else if preflightJson N text kConfigJsonLimits ≠ .ok then
    .error (FilePolicy.error .invalidConfig "configuration failed bounded JSON validation")
  else
    match (N.parse text).bind rootsOf with
    | none => .error (FilePolicy.error .invalidConfig "configuration does not match schema version 1")
    | some roots => configOfRoots limits roots

end RuntimeConfig

/-! ### `parse_runtime_policy_config` -/

inductive RuntimeConfigErrorCode where
  | configTooLarge
  | invalidConfig
  deriving DecidableEq, Repr

def runtimeConfigErrorName : RuntimeConfigErrorCode → String
  | .configTooLarge => "config_too_large"
  | .invalidConfig => "invalid_config"

structure RuntimeConfigError where
  code : RuntimeConfigErrorCode
  message : Bytes
  deriving DecidableEq, Repr

structure RuntimePolicyConfig where
  filesystem : FilesystemPolicyConfig := {}
  processes : List ProcessObservation.ProcessTargetConfig := []
  deriving DecidableEq, Repr

structure RuntimeConfigLimits where
  maxConfigBytes : Nat := 64 * 1024
  filesystem : FilesystemPolicyLimits := {}
  processes : ProcessObservation.ProcessPolicyLimits := {}
  deriving DecidableEq, Repr

namespace RuntimeConfig

open ProcessObservation (ProcessTargetConfig ProcessPolicyLimits)

def error (code : RuntimeConfigErrorCode) (message : String) : RuntimeConfigError := ⟨code, bytes message⟩

/-- A document of version 1 around these roots. -/
def versionOne (roots : List Json) : Json :=
  Json.ofPairs [("version", .numberUnsigned 1), ("roots", .array roots)]

/-- `parse_roots`; `none` where `dump()` throws. -/
def parseRoots (N : Nlohmann) (roots : Json) (limits : RuntimeConfigLimits) :
    Option (Except RuntimeConfigError FilesystemPolicyConfig) :=
  match roots with
  | .array items =>
    if limits.filesystem.maxRoots < items.length then
      some (.error (error .invalidConfig "runtime roots must be an array within the configured limit"))
    else if items.isEmpty then some (.ok {})
    else
      (versionOne items).dump.map fun legacy =>
        (parseFilesystemPolicyConfig N legacy limits.filesystem).mapError fun e => ⟨.invalidConfig, e.message⟩
  | _ => some (.error (error .invalidConfig "runtime roots must be an array within the configured limit"))

/-- The process of a `pid`; `none` is the server itself. -/
def readPid : Json → Except RuntimeConfigError (Option Nat)
  | .string s =>
    if s = bytes "self" then .ok none else .error (error .invalidConfig "process pid strings must be exactly self")
  | .numberUnsigned raw =>
    if raw = 0 ∨ 2 ^ 31 ≤ raw then .error (error .invalidConfig "process PID is outside the accepted range")
    else .ok (some raw)
  | _ => .error (error .invalidConfig "process pid must be an unsigned integer or self")

/-- One round of the loop of `parse_processes`, with the names of the rounds before. -/
def readProcess (limits : ProcessPolicyLimits) (names : List Bytes) (value : Json) :
    Except RuntimeConfigError ProcessTargetConfig :=
  match value.isObject && value.size == 2, value.find? "name", value.find? "pid" with
  | true, some (.string name), some pid =>
    if !ProcessMemory.validProcessName name limits.maxNameBytes then
      .error (error .invalidConfig "process name contains unsupported characters")
    else if names.contains name then .error (error .invalidConfig "process names must be unique")
    else (readPid pid).map fun pid => ⟨name, pid⟩
  | _, _, _ => .error (error .invalidConfig "process entries must contain exactly name and pid")

def readProcesses (limits : ProcessPolicyLimits) :
    List Bytes → List Json → Except RuntimeConfigError (List ProcessTargetConfig)
  | _, [] => .ok []
  | names, value :: values =>
    match readProcess limits names value with
    | .error e => .error e
    | .ok target => (readProcesses limits (target.name :: names) values).map (target :: ·)

def parseProcesses (processes : Json) (limits : RuntimeConfigLimits) :
    Except RuntimeConfigError (List ProcessTargetConfig) :=
  match processes with
  | .array items =>
    if limits.processes.maxProcesses < items.length then
      .error (error .invalidConfig "runtime processes must be an array within the configured limit")
    else readProcesses limits.processes [] items
  | _ => .error (error .invalidConfig "runtime processes must be an array within the configured limit")

/-- The branch of version 1. -/
def parseVersionOne (N : Nlohmann) (text : Bytes) (limits : RuntimeConfigLimits) (document : Json) :
    Except RuntimeConfigError RuntimePolicyConfig :=
  if document.size ≠ 2 ∨ !document.contains "roots" then
    .error (error .invalidConfig "schema version 1 contains only version and roots")
  else
    match parseFilesystemPolicyConfig N text limits.filesystem with
    | .error e => .error ⟨.invalidConfig, e.message⟩
    | .ok filesystem => .ok { filesystem := filesystem }

/-- The configuration of version 2 with these roots. -/
def withProcesses (processes : Json) (limits : RuntimeConfigLimits)
    (roots : Except RuntimeConfigError FilesystemPolicyConfig) : Except RuntimeConfigError RuntimePolicyConfig :=
  match roots with
  | .error e => .error e
  | .ok filesystem =>
    match parseProcesses processes limits with
    | .error e => .error e
    | .ok processes =>
      if filesystem.roots.isEmpty && processes.isEmpty then
        .error (error .invalidConfig "schema version 2 must configure at least one capability")
      else .ok ⟨filesystem, processes⟩

/-- The branch of version 2. -/
def parseVersionTwo (N : Nlohmann) (limits : RuntimeConfigLimits) (document : Json) :
    Option (Except RuntimeConfigError RuntimePolicyConfig) :=
  match decide (document.size = 3), document.find? "roots", document.find? "processes" with
  | true, some roots, some processes => (parseRoots N roots limits).map (withProcesses processes limits)
  | _, _, _ => some (.error (error .invalidConfig "schema version 2 requires roots and processes"))

/-- The version of a document. -/
def versionOf (document : Json) : Option Nat :=
  match document.find? "version" with
  | some (.numberUnsigned version) => some version
  | _ => none

def parseDocument (N : Nlohmann) (text : Bytes) (limits : RuntimeConfigLimits) (document : Json) :
    Option (Except RuntimeConfigError RuntimePolicyConfig) :=
  match versionOf document with
  | none => some (.error (error .invalidConfig "runtime policy configuration is not valid JSON schema"))
  | some 1 => some (parseVersionOne N text limits document)
  | some 2 => parseVersionTwo N limits document
  | some _ => some (.error (error .invalidConfig "unsupported runtime policy schema version"))

/-- The limit of the runtime configuration counts for its roots too. -/
def effectiveLimits (limits : RuntimeConfigLimits) : RuntimeConfigLimits :=
  { limits with filesystem := { limits.filesystem with maxConfigBytes := limits.maxConfigBytes } }

/-- `parse_runtime_policy_config`; `none` where it throws. -/
def parseRuntimePolicyConfig (N : Nlohmann) (text : Bytes) (limits : RuntimeConfigLimits) :
    Option (Except RuntimeConfigError RuntimePolicyConfig) :=
  if limits.maxConfigBytes < text.length then
    some (.error (error .configTooLarge "runtime policy configuration exceeds the byte limit"))
  else if preflightJson N text kConfigJsonLimits ≠ .ok then
    some (.error (error .invalidConfig "runtime policy configuration failed bounded JSON validation"))
  else
    match N.parse text with
    | none => some (.error (error .invalidConfig "runtime policy configuration is not valid JSON schema"))
    | some document => parseDocument N text (effectiveLimits limits) document

/-! ### Accepted configurations -/

theorem configOfRoots_eq_ok_iff {limits : FilesystemPolicyLimits} {roots : List Json} {config : FilesystemPolicyConfig} :
    configOfRoots limits roots = .ok config ↔
      roots ≠ [] ∧ roots.length ≤ limits.maxRoots ∧ roots.mapM readRoot = some config.roots := by
  unfold configOfRoots
  by_cases hcount : roots = [] ∨ limits.maxRoots < roots.length
  · rw [if_pos (by simpa using hcount)]
    constructor
    · intro h
      cases h
    · rintro ⟨hne, hle, -⟩
      rcases hcount with hnil | hlt
      · exact absurd hnil hne
      · omega
  · rw [if_neg (by simpa using hcount)]
    have hbounds : roots ≠ [] ∧ roots.length ≤ limits.maxRoots := by
      rw [not_or] at hcount
      exact ⟨hcount.1, by omega⟩
    cases hroots : roots.mapM readRoot with
    | none => simp
    | some rs =>
      constructor
      · intro h
        cases h
        exact ⟨hbounds.1, hbounds.2, rfl⟩
      · rintro ⟨-, -, h⟩
        cases h
        rfl

/-- A text of version 1 within the limits is accepted as its roots are. -/
theorem parseFilesystemPolicyConfig_eq {N : Nlohmann} {text : Bytes} {limits : FilesystemPolicyLimits} {document : Json}
    {roots : List Json} (hsize : text.length ≤ limits.maxConfigBytes)
    (hpreflight : preflightJson N text kConfigJsonLimits = .ok) (hparse : N.parse text = some document)
    (hroots : rootsOf document = some roots) :
    parseFilesystemPolicyConfig N text limits = configOfRoots limits roots := by
  unfold parseFilesystemPolicyConfig
  rw [if_neg (by omega), if_neg (by simp [hpreflight]), hparse, Option.bind_some, hroots]

theorem not_configTooLarge {N : Nlohmann} {text : Bytes} {limits : FilesystemPolicyLimits}
    {config : FilesystemPolicyConfig} (h : parseFilesystemPolicyConfig N text limits = .ok config) :
    text.length ≤ limits.maxConfigBytes := by
  unfold parseFilesystemPolicyConfig at h
  split at h
  · cases h
  · omega

/-- The filesystem part of an accepted configuration. -/
def acceptedFilesystem : Option (Except RuntimeConfigError RuntimePolicyConfig) → Option FilesystemPolicyConfig
  | some (.ok config) => some config.filesystem
  | _ => none

/-- Serializing the roots never throws: what the parser returns is UTF-8. -/
theorem parseRuntimePolicyConfig_isSome (N : Nlohmann) (text : Bytes) (limits : RuntimeConfigLimits) :
    (parseRuntimePolicyConfig N text limits).isSome = true := by
  unfold parseRuntimePolicyConfig
  split
  · rfl
  split
  · rfl
  cases hparse : N.parse text with
  | none => rfl
  | some document =>
    have hutf8 := N.isUtf8_of_parse text document hparse
    have hroots : ∀ roots, document.find? "roots" = some roots →
        (parseRoots N roots (effectiveLimits limits)).isSome = true := by
      intro roots hroots
      have hutf8 := Json.isUtf8_of_find? hutf8 hroots
      cases roots with
      | array items =>
        have hversion : (versionOne items).isUtf8 = true := by
          refine Json.isUtf8_ofPairs ?_
          simp [hutf8]
        obtain ⟨legacy, hlegacy⟩ := Json.exists_dump hversion
        simp only [parseRoots, hlegacy]
        split
        · rfl
        split <;> rfl
      | _ => rfl
    show (parseDocument N text (effectiveLimits limits) document).isSome = true
    unfold parseDocument
    split
    · rfl
    · rfl
    · unfold parseVersionTwo
      split
      · rename_i hfound _
        rw [Option.isSome_map]
        exact hroots _ hfound
      · rfl
    · rfl

end RuntimeConfig

end NativeMcp
