import NativeMcp.Tools.LogAnalysis
import NativeMcp.Tools.ProcessMemory

/-!
# The filesystem policy

`FilesystemPolicy::open_regular_file`: the root must be configured and the path must be relative, bounded and without dot
components before any system call is made.  What the system calls then make of the path is arbitrary: a file, or one of the
policy's errors.
-/

namespace NativeMcp

inductive PolicyErrorCode where
  | invalidConfig
  | configTooLarge
  | tooManyRoots
  | invalidRootName
  | invalidRootPath
  | duplicateRoot
  | openRootFailed
  | kernelUnsupported
  | unknownRoot
  | invalidRelativePath
  | pathTooLong
  | resolutionDenied
  | targetMissing
  | permissionDenied
  | notRegularFile
  | fileTooLarge
  | procUnavailable
  | ioError
  deriving DecidableEq, Repr

def policyErrorName : PolicyErrorCode → String
  | .invalidConfig => "invalid_config"
  | .configTooLarge => "config_too_large"
  | .tooManyRoots => "root_count_invalid"
  | .invalidRootName => "invalid_root_name"
  | .invalidRootPath => "invalid_root_path"
  | .duplicateRoot => "duplicate_root"
  | .openRootFailed => "open_root_failed"
  | .kernelUnsupported => "kernel_unsupported"
  | .unknownRoot => "unknown_root"
  | .invalidRelativePath => "invalid_relative_path"
  | .pathTooLong => "path_too_long"
  | .resolutionDenied => "resolution_denied"
  | .targetMissing => "target_missing"
  | .permissionDenied => "permission_denied"
  | .notRegularFile => "not_regular_file"
  | .fileTooLarge => "file_too_large"
  | .procUnavailable => "proc_unavailable"
  | .ioError => "io_error"

structure PolicyError where
  code : PolicyErrorCode
  message : Bytes
  deriving DecidableEq, Repr

namespace FilePolicy

def error (code : PolicyErrorCode) (message : String) : PolicyError := ⟨code, bytes message⟩

def kSlash : UInt8 := 0x2F

def validRootName (name : Bytes) : Bool := name ≠ [] && name.length ≤ 64 && name.all ProcessMemory.isNameByte

structure RootHandle where
  name : Bytes
  maxFileBytes : Nat
  deriving DecidableEq, Repr

/-- The configured roots; `create` admits only valid names. -/
structure FilesystemPolicy where
  roots : List RootHandle
  maxPathBytes : Nat := 4096
  valid : ∀ r ∈ roots, validRootName r.name = true

/-- `component.empty() || component == "." || component == ".."` -/
def isDenied (component : Bytes) : Bool := component == [] || component == bytes "." || component == bytes ".."

/-- `path.find('/', start)` -/
def findSlash (path : Bytes) (start : Nat) : Option Nat := ((path.drop start).idxOf? kSlash).map (start + ·)

theorem le_of_findSlash {path : Bytes} {start slash : Nat} (h : findSlash path start = some slash) :
    start ≤ slash ∧ slash < path.length := by
  obtain ⟨i, hi, rfl⟩ := Option.map_eq_some_iff.1 h
  have hlt : i < (path.drop start).length := (List.idxOf?_eq_some_iff.1 hi).1
  rw [List.length_drop] at hlt
  omega

/-- `path.substr(start, end - start)` up to a slash, or to the end of the path. -/
def componentAt (path : Bytes) (start : Nat) (slash : Option Nat) : Bytes :=
  (path.drop start).take (slash.getD path.length - start)

/-- The loop of `valid_root_path` and `validate_relative_path`: a component is empty, a dot or a parent. -/
def hasDeniedComponent (path : Bytes) (start : Nat) : Bool :=
  if start ≤ path.length then
    match h : findSlash path start with
    | none => isDenied (componentAt path start none)
    | some slash => isDenied (componentAt path start (some slash)) || hasDeniedComponent path (slash + 1)
  else false
termination_by path.length + 1 - start
decreasing_by
  have := le_of_findSlash h
  omega

def validRootPath (path : Bytes) (maxPathBytes : Nat) : Bool :=
  if path = [] ∨ path.head? ≠ some kSlash ∨ maxPathBytes < path.length ∨ 0 ∈ path then false
  else if path = [kSlash] then true
  else if path.getLast? = some kSlash then false
  else !hasDeniedComponent path 1

def validateRelativePath (path : Bytes) (maxPathBytes : Nat) : Option PolicyError :=
  if path = [] ∨ path.head? = some kSlash ∨ path.getLast? = some kSlash ∨ 0 ∈ path then
    some (error .invalidRelativePath "path must be a nonempty relative file path")
  else if maxPathBytes < path.length then some (error .pathTooLong "path exceeds the configured byte limit")
  else if hasDeniedComponent path 0 then
    some (error .invalidRelativePath "path contains an empty, dot, or parent component")
  else none

/-- `open_regular_file`, given what the system calls make of the path beneath the root. -/
def FilesystemPolicy.openRegularFile (policy : FilesystemPolicy) (rootName relativePath : Bytes)
    (opened : RootHandle → Except PolicyError ReadOnlyFile) : Except PolicyError ReadOnlyFile :=
  match policy.roots.find? (·.name == rootName) with
  | none => .error (error .unknownRoot "requested root is not configured")
  | some root =>
    match validateRelativePath relativePath policy.maxPathBytes with
    | some pathError => .error pathError
    | none => opened root

/-- A file is opened only beneath a configured root, at a bounded path. -/
theorem openRegularFile_ok {policy : FilesystemPolicy} {rootName relativePath : Bytes}
    {opened : RootHandle → Except PolicyError ReadOnlyFile} {file : ReadOnlyFile}
    (h : policy.openRegularFile rootName relativePath opened = .ok file) :
    validRootName rootName = true ∧ relativePath.length ≤ policy.maxPathBytes := by
  unfold FilesystemPolicy.openRegularFile at h
  split at h
  · cases h
  rename_i root hroot
  have hname : root.name = rootName := by simpa using List.find?_some hroot
  refine ⟨hname ▸ policy.valid root (List.mem_of_find?_eq_some hroot), ?_⟩
  split at h
  · cases h
  · rename_i hpath
    unfold validateRelativePath at hpath
    split at hpath
    · cases hpath
    split at hpath
    · cases hpath
    · omega

end FilePolicy

end NativeMcp
