import Mathlib.Data.List.Nodup
import NativeMcp.Lib.Descent
import NativeMcp.Tools.PathWalk
import NativeMcp.Tools.RuntimeConfig

/-!
# What an opened file is

`FilesystemPolicy::create` opens the configured roots and `FilesystemPolicy::open_regular_file` a file beneath one of
them, while others rename, replace and link what lies there.  Whatever they do between two calls and within one, the
file that is returned is a regular one that was reached from the filesystem root along the names of the configured root
and those of the requested path, each an entry of the directory before it at the moment when it was looked up: no
symbolic link has been followed and no parent entered (`file_contained`).
-/

namespace NativeMcp

namespace FilePolicy

open Program Descent

/-! ### System calls -/

inductive ObjectKind where
  | regular
  | directory
  | symlink
  | other
  deriving DecidableEq, Repr

/-- What the legacy walks see of a kind. -/
def ObjectKind.toFileKind : ObjectKind → FileKind
  | .directory => .directory
  | .symlink => .symlink
  | _ => .other

/-- What is read of `struct stat`; the mode is the kind and the permissions. -/
structure Stat where
  device : Nat
  inode : Nat
  kind : ObjectKind
  permissions : Nat
  size : Int
  deriving DecidableEq, Repr

/-- `RESOLVE_BENEATH`, `RESOLVE_NO_SYMLINKS`, `RESOLVE_NO_MAGICLINKS` and `RESOLVE_NO_XDEV`. -/
structure ResolveFlags where
  beneath : Bool
  noSymlinks : Bool
  noMagiclinks : Bool
  noXdev : Bool
  deriving DecidableEq, Repr

/-- A call and what it has returned; `openat2` starts at a descriptor or at the working directory, and `reopen` opens
the entry of a descriptor in `/proc/self/fd`. -/
inductive Event where
  | walked (call : KernelCall) (answer : Answer)
  | openat2 (directory : Option Nat) (path : Bytes) (flags : OpenFlags) (resolve : ResolveFlags)
    (opened : Except Errno Nat)
  | fstat (fd : Nat) (stat : Option Stat)
  | reopen (fd : Nat) (opened : Except Errno Nat)

structure Reply where
  opened : Except Errno Nat
  stat : Option Stat

def Reply.answer (reply : Reply) : Answer := ⟨reply.opened, reply.stat.map (·.kind.toFileKind)⟩

/-- The replies of a kernel, one for each call, and the record of the calls.  A descriptor is named by what it stands
for: one that the kernel gives out again after it has been closed has another name. -/
structure Host where
  reply : Nat → Reply
  log : List Event := []

abbrev Opening (α : Type) := Program Host PolicyError α

def Host.next (s : Host) : Reply := s.reply s.log.length

def Host.note (s : Host) (e : Event) : Host := { s with log := s.log ++ [e] }

def openat2 (directory : Option Nat) (path : Bytes) (flags : OpenFlags) (resolve : ResolveFlags) :
    Opening (Except Errno Nat) := fun s =>
  (.returned s.next.opened, s.note (.openat2 directory path flags resolve s.next.opened))

def fstat (fd : Nat) : Opening (Option Stat) := fun s => (.returned s.next.stat, s.note (.fstat fd s.next.stat))

/-- `open("/proc/self/fd/" + fd, O_RDONLY | O_CLOEXEC | O_NONBLOCK)` -/
def reopen (fd : Nat) : Opening (Except Errno Nat) := fun s =>
  (.returned s.next.opened, s.note (.reopen fd s.next.opened))

/-- A walk, whose calls the same kernel answers. -/
def legacy {α : Type} (x : Walk α) : Opening α := fun s =>
  let result := x ⟨fun n => (s.reply (s.log.length + n)).answer, []⟩
  (result.1, { s with log := s.log ++ result.2.log.map fun p => .walked p.1 p.2 })

/-! ### `create` -/

structure OpeningLimits extends FilesystemPolicyLimits where
  maxPathBytes : Nat := 4096
  maxFileBytes : Nat := 1024 * 1024 * 1024
  allowLegacyDescriptorWalk : Bool := false

structure OpenedRoot extends RootHandle where
  directory : Nat

/-- The roots that have been opened, each under a name of its own. -/
structure OpenedPolicy where
  limits : OpeningLimits
  roots : List OpenedRoot := []
  valid : ∀ r ∈ roots, validRootName r.name = true := by simp
  distinct : (roots.map (·.name)).Nodup := by simp

def OpenedPolicy.add (policy : OpenedPolicy) (root : OpenedRoot) (hname : validRootName root.name = true)
    (hnew : root.name ∉ policy.roots.map (·.name)) : OpenedPolicy where
  limits := policy.limits
  roots := policy.roots ++ [root]
  valid := by
    intro r hr
    rcases List.mem_append.1 hr with hr | hr
    · exact policy.valid r hr
    · rw [List.mem_singleton.1 hr]
      exact hname
  distinct := by
    rw [List.map_append, List.map_singleton]
    exact List.nodup_append.2 ⟨policy.distinct, List.nodup_singleton _, fun a ha b hb => by
      rw [List.mem_singleton.1 hb]
      intro heq
      exact hnew (heq ▸ ha)⟩

/-- The policy as the tools see it. -/
def OpenedPolicy.toPolicy (policy : OpenedPolicy) : FilesystemPolicy where
  roots := policy.roots.map (·.toRootHandle)
  maxPathBytes := policy.limits.maxPathBytes
  valid := by
    intro r hr
    obtain ⟨root, hroot, rfl⟩ := List.mem_map.1 hr
    exact policy.valid root hroot

/-- The system call or a flag of it is unknown to the kernel. -/
def isUnsupported (number : Errno) : Bool := number = .noSystemCall || number = .tooBig || number = .invalid

def openRootStrict (path : Bytes) (allowLegacy : Bool) : Opening Nat := do
  let opened ← openat2 none path (walkFlags true) ⟨false, true, true, false⟩
  match opened with
  | .ok fd => pure fd
  | .error number =>
    if isUnsupported number && allowLegacy then legacy (openRootLegacy path)
    else if isUnsupported number then
      raise (error .kernelUnsupported "required openat2 root validation is unavailable")
    else raise (error .openRootFailed "configured root contains a denied or inaccessible component")

/-- Opens a root whose configuration has been checked. -/
def openRoot (limits : OpeningLimits) (root : RootPolicyConfig) : Opening Nat := do
  let directory ← openRootStrict root.path limits.allowLegacyDescriptorWalk
  let metadata ← fstat directory
  if metadata.any (·.kind = .directory) then pure directory
  else raise (error .openRootFailed "configured root is not a directory")

private theorem notMem_of_contains {names : List Bytes} {name : Bytes} (h : ¬names.contains name = true) :
    name ∉ names :=
  fun hmem => h (List.contains_iff_mem.2 hmem)

/-- The loop of `create`. -/
def createRoots : List RootPolicyConfig → OpenedPolicy → Opening OpenedPolicy
  | [], policy => pure policy
  | root :: roots, policy =>
    if hname : validRootName root.name = true then
      if !validRootPath root.path policy.limits.maxPathBytes then
        raise (error .invalidRootPath "root path must be absolute, bounded, and normalized")
      else if root.maxFileBytes = 0 ∨ policy.limits.maxFileBytes < root.maxFileBytes then
        raise (error .fileTooLarge "root file limit is outside the accepted range")
      else if hold : (policy.roots.map (·.name)).contains root.name = true then
        raise (error .duplicateRoot "root names must be unique")
      else do
        let directory ← openRoot policy.limits root
        createRoots roots
          (policy.add ⟨⟨root.name, root.maxFileBytes⟩, directory⟩ hname (notMem_of_contains hold))
    else raise (error .invalidRootName "root name contains unsupported characters")

/-- `FilesystemPolicy::create` -/
def createPolicy (config : FilesystemPolicyConfig) (limits : OpeningLimits) : Opening OpenedPolicy :=
  if config.roots = [] ∨ limits.maxRoots < config.roots.length then
    raise (error .tooManyRoots "configuration must contain between one and the root limit")
  else createRoots config.roots { limits }

/-! ### `open_regular_file` -/

/-- What a `ReadOnlyFile` holds. -/
structure OpenedFile where
  fd : Nat
  observedSize : Nat
  maxReadBytes : Nat
  deriving DecidableEq, Repr

/-- `same_object` -/
def sameObject (left right : Stat) : Bool :=
  left.device = right.device && left.inode = right.inode && left.kind = right.kind &&
    left.permissions = right.permissions

/-- The descriptor of the target, which may be anything. -/
def openTarget (allowLegacy : Bool) (directory : Nat) (path : Bytes) : Opening Nat := do
  let opened ← openat2 (some directory) path (walkFlags false) ⟨true, true, true, true⟩
  match opened with
  | .ok fd => pure fd
  | .error number =>
    if isUnsupported number && allowLegacy then legacy (openLegacyPath directory path)
    else raise (mapOpenError number)

/-- What `fstat` says of the target. -/
def inspectTarget (root : OpenedRoot) (fd : Nat) : Opening Stat := do
  match ← fstat fd with
  | none => raise (error .ioError "failed to inspect opened target")
  | some metadata =>
    if metadata.kind = .symlink then raise (error .resolutionDenied "target is a symbolic or magic link")
    else if metadata.kind ≠ .regular then raise (error .notRegularFile "target is not a regular file")
    else if metadata.size < 0 ∨ (root.maxFileBytes : Int) < metadata.size then
      raise (error .fileTooLarge "target exceeds the configured file limit")
    else pure metadata

/-- The descriptor that is read, of the object that has been inspected. -/
def reopenTarget (root : OpenedRoot) (fd : Nat) (metadata : Stat) : Opening OpenedFile := do
  match ← reopen fd with
  | .error number =>
    if number = .access ∨ number = .notPermitted then
      raise (error .permissionDenied "permission denied reopening the pinned target")
    else
      raise (error .procUnavailable "could not reopen the pinned regular file through /proc/self/fd")
  | .ok readable =>
    match ← fstat readable with
    | none => raise (error .ioError "reopened descriptor did not match the pinned target")
    | some now =>
      if !sameObject metadata now ∨ now.kind ≠ .regular then
        raise (error .ioError "reopened descriptor did not match the pinned target")
      else if now.size < 0 ∨ (root.maxFileBytes : Int) < now.size then
        raise (error .fileTooLarge "target grew beyond the configured file limit")
      else pure ⟨readable, now.size.toNat, root.maxFileBytes⟩

/-- The system calls of `open_regular_file`. -/
def openBeneath (allowLegacy : Bool) (root : OpenedRoot) (path : Bytes) : Opening OpenedFile := do
  let fd ← openTarget allowLegacy root.directory path
  let metadata ← inspectTarget root fd
  reopenTarget root fd metadata

/-- `FilesystemPolicy::open_regular_file` -/
def OpenedPolicy.openRegularFile (policy : OpenedPolicy) (rootName relativePath : Bytes) : Opening OpenedFile :=
  match policy.roots.find? (·.name == rootName) with
  | none => raise (error .unknownRoot "requested root is not configured")
  | some root =>
    match validateRelativePath relativePath policy.limits.maxPathBytes with
    | some pathError => raise pathError
    | none => openBeneath policy.limits.allowLegacyDescriptorWalk root relativePath

/-! ### What the kernel does -/

/-- A filesystem over time: what is an entry of what at a moment, and what `fstat` gives at one; the descriptors stand
for objects of it. -/
structure Filesystem (Object : Type) where
  root : Object
  entry : Nat → Object → Bytes → Object → Prop
  stat : Nat → Object → Stat
  mount : Object → Nat
  descriptor : Nat → Object

section

variable {Object : Type} (F : Filesystem Object)

/-- A name that the kernel looks up as an entry. -/
def IsEntryName (component : Bytes) : Prop := IsName component ∧ IsProper component

/-- What a call of a legacy walk has returned was so at a moment of the call, which began at `s` and ended at `t`. -/
def WalkHonest (s t : Nat) : KernelCall → Answer → Prop
  | .duplicate fd, answer => ∀ new, answer.opened = .ok new → F.descriptor new = F.descriptor fd
  | .open path _, answer => ∀ new, answer.opened = .ok new → path = bytes "/" → F.descriptor new = F.root
  | .openat directory component flags, answer => ∀ new, answer.opened = .ok new → flags.nofollow = true →
      IsEntryName component → ∃ u, s ≤ u ∧ u ≤ t ∧ F.entry u (F.descriptor directory) component (F.descriptor new)
  | .fstat fd, answer => ∀ kind, answer.kind = some kind →
      ∃ u, s ≤ u ∧ u ≤ t ∧ (F.stat u (F.descriptor fd)).kind.toFileKind = kind
  | .fstatat _ _, _ => True

/-- What `openat2` resolves without following a link: one entry after the other, on one mount if it may cross none. -/
def Resolves (s t : Nat) (start : Object) (names : List Bytes) (flags : OpenFlags) (resolve : ResolveFlags)
    (found : Object) : Prop :=
  flags.nofollow = true → resolve.noSymlinks = true → (∀ c ∈ names, IsEntryName c) →
    Descends F.entry s start names t found ∧ (resolve.noXdev = true → F.mount found = F.mount start)

/-- What a call has returned is so; what is opened through `/proc/self/fd` may be anything. -/
def Honest (s t : Nat) : Event → Prop
  | .walked call answer => WalkHonest F s t call answer
  | .openat2 (some directory) path flags resolve opened => ∀ new, opened = .ok new →
      Resolves F s t (F.descriptor directory) (components path) flags resolve (F.descriptor new)
  | .openat2 none path flags resolve opened => ∀ new, opened = .ok new → path.head? = some kSlash →
      Resolves F s t F.root (rootComponents path) flags resolve (F.descriptor new)
  | .fstat fd stat => ∀ now, stat = some now → ∃ u, s ≤ u ∧ u ≤ t ∧ F.stat u (F.descriptor fd) = now
  | .reopen _ _ => True

/-- The calls took place one after the other from the moment `s` until `t`, whatever happened meanwhile. -/
inductive Explained : Nat → List Event → Nat → Prop where
  | nil {s t : Nat} (h : s ≤ t) : Explained s [] t
  | cons {s b u t : Nat} {e : Event} {log : List Event} (hs : s ≤ b) (hb : b ≤ u) (he : Honest F b u e)
      (h : Explained u log t) : Explained s (e :: log) t

variable {F} {s t u : Nat} {log log' : List Event}

theorem Explained.le (h : Explained F s log t) : s ≤ t := by
  induction h with
  | nil h => exact h
  | cons hs hb _ _ ih => exact hs.trans (hb.trans ih)

theorem explained_append : Explained F s (log ++ log') t ↔ ∃ u, Explained F s log u ∧ Explained F u log' t := by
  constructor
  · intro h
    induction log generalizing s with
    | nil => exact ⟨s, .nil (Nat.le_refl s), h⟩
    | cons e log ih =>
      cases h with
      | cons hs hb he h =>
        obtain ⟨u, hfirst, hsecond⟩ := ih h
        exact ⟨u, .cons hs hb he hfirst, hsecond⟩
  · rintro ⟨u, hfirst, hsecond⟩
    induction hfirst with
    | nil hs =>
      cases hsecond with
      | nil h => exact .nil (hs.trans h)
      | cons h hb he hrest => exact .cons (hs.trans h) hb he hrest
    | cons hs hb he _ ih => exact .cons hs hb he (ih hsecond)

theorem Explained.head {e : Event} (h : Explained F s (e :: log) t) :
    ∃ b u, s ≤ b ∧ b ≤ u ∧ Honest F b u e ∧ Explained F u log t := by
  cases h with
  | cons hs hb he h => exact ⟨_, _, hs, hb, he, h⟩

/-! ### The walks -/

private theorem lastOpened_cons {fd : Nat} {call : Openat} {calls : List Openat} {next : Nat}
    (h : call.opened = .ok next) : lastOpened fd (call :: calls) = lastOpened next calls := by
  unfold lastOpened
  cases calls with
  | nil =>
    show call.opened = .ok next
    exact h
  | cons call' calls => rfl

/-- A walk that has opened every name has found what lies there. -/
private theorem descends_of_follows {flags : Bool → OpenFlags} (hflags : ∀ final, (flags final).nofollow = true)
    {rest : List (KernelCall × Answer)} {fd opened : Nat} {names : List Bytes}
    (hnames : ∀ c ∈ names, IsEntryName c) (hfollows : Follows flags fd names (openats rest))
    (hlength : (openats rest).length = names.length) (hlast : lastOpened fd (openats rest) = .ok opened)
    (h : Explained F s (rest.map fun p => .walked p.1 p.2) t) :
    Descends F.entry s (F.descriptor fd) names t (F.descriptor opened) := by
  induction rest generalizing s fd names with
  | nil =>
    cases names with
    | nil =>
      obtain rfl : fd = opened := Except.ok.inj hlast
      exact .nil h.le
    | cons component names => cases hlength
  | cons p rest ih =>
    obtain ⟨call, answer⟩ := p
    obtain ⟨b, u, hs, hb, hhonest, hrest⟩ := h.head
    have hsu : s ≤ u := hs.trans hb
    cases call with
    | openat directory component callFlags =>
      cases names with
      | nil => cases hlength
      | cons name names =>
        obtain ⟨hname, hnames⟩ := List.forall_mem_cons.1 hnames
        obtain ⟨hdirectory, hcomponent, hcall, hnext⟩ := hfollows
        dsimp only at hdirectory hcomponent hcall hnext
        have hcount : (openats rest).length = names.length := Nat.succ.inj hlength
        cases hopened : answer.opened with
        | error number =>
          rw [hopened] at hnext
          have hnone : openats rest = [] := hnext
          have hfailed : lastOpened fd (openats ((.openat directory component callFlags, answer) :: rest)) =
              .error number := by
            show lastOpened fd (_ :: openats rest) = .error number
            rw [hnone]
            exact hopened
          rw [hfailed] at hlast
          cases hlast
        | ok next =>
          rw [hopened] at hnext
          have hend : lastOpened next (openats rest) = .ok opened := (lastOpened_cons hopened).symm.trans hlast
          have hwalk := ih hnames hnext hcount hend hrest
          rw [hcall] at hhonest
          obtain ⟨v, hv, hvu, hentry⟩ := hhonest next hopened (hflags _) (hcomponent ▸ hname)
          rw [hdirectory, hcomponent] at hentry
          exact .cons (hs.trans hv) hentry (hwalk.fromEarlier hvu)
    | _ => exact (ih hnames hfollows hlength hlast hrest).fromEarlier hsu

/-- A walk that has returned a descriptor has found what it stands for. -/
private theorem descends_of_walked {first : KernelCall} {flags : Bool → OpenFlags} {names : List Bytes}
    {result : Ending PolicyError Nat × Kernel} {opened : Nat} {start : Object}
    (hflags : ∀ final, (flags final).nofollow = true) (hnames : ∀ c ∈ names, IsEntryName c)
    (hfirst : ∀ b u answer fd, WalkHonest F b u first answer → answer.opened = .ok fd → F.descriptor fd = start)
    (hwalked : Walked first flags names result) (hreturned : result.1 = .returned opened)
    (h : Explained F s (result.2.log.map fun p => .walked p.1 p.2) t) :
    Descends F.entry s start names t (F.descriptor opened) := by
  obtain ⟨⟨answer, rest, hlog, hmatch⟩, -⟩ := hwalked
  rw [hlog] at h
  obtain ⟨b, u, hs, hb, hhonest, hrest⟩ := h.head
  cases hopened : answer.opened with
  | error number =>
    rw [hopened] at hmatch
    exact absurd hreturned (hmatch.2 opened)
  | ok fd =>
    rw [hopened] at hmatch
    obtain ⟨hfollows, hend⟩ := hmatch
    obtain ⟨hlength, hlast⟩ := hend opened hreturned
    rw [← hfirst b u answer fd hhonest hopened]
    exact (descends_of_follows hflags hnames hfollows hlength hlast hrest).fromEarlier (hs.trans hb)

/-! ### The programs

`Shows log Q` says that the calls of the log show `Q`, which depends on the moments between which they took place. -/

/-- What the log shows of the time in which it was written. -/
def Shows (F : Filesystem Object) (log : List Event) (Q : Nat → Nat → Prop) : Prop :=
  ∀ s t, Explained F s log t → Q s t

/-- What a program has recorded, if it has returned, shows this. -/
def Records {α : Type} (F : Filesystem Object) (x : Opening α) (Q : α → Nat → Nat → Prop) : Prop :=
  ∀ host a host', x host = (.returned a, host') →
    ∃ log, host'.log = host.log ++ log ∧ Shows F log (Q a)

variable {α β : Type} {x : Opening α} {f : α → Opening β} {Q Q' : α → Nat → Nat → Prop} {R : β → Nat → Nat → Prop}

theorem Records.mono (h : Records F x Q) (hQ : ∀ a s t, Q a s t → Q' a s t) : Records F x Q' := by
  intro host a host' hx
  obtain ⟨log, hlog, hshows⟩ := h host a host' hx
  exact ⟨log, hlog, fun s t h => hQ a s t (hshows s t h)⟩

theorem Records.pure {a : α} (h : ∀ s t, s ≤ t → Q a s t) : Records F (pure a : Opening α) Q := by
  intro host b host' hx
  cases hx
  exact ⟨[], (List.append_nil _).symm, fun s t h' => h s t h'.le⟩

theorem Records.raise {e : PolicyError} : Records F (raise e : Opening α) Q := by
  intro host a host' hx
  cases hx

/-- One program after the other, with a moment between them. -/
theorem Records.bind (hx : Records F x Q) (hf : ∀ a, Records F (f a) fun b u t => ∀ s, Q a s u → R b s t) :
    Records F (x >>= f) R := by
  intro host b host'' h
  obtain ⟨a, host', hfirst, hsecond⟩ := exists_of_bind h
  obtain ⟨log, hlog, hshows⟩ := hx host a host' hfirst
  obtain ⟨log', hlog', hshows'⟩ := hf a host' b host'' hsecond
  refine ⟨log ++ log', by rw [hlog', hlog, List.append_assoc], ?_⟩
  intro s t h
  obtain ⟨u, hfirst, hsecond⟩ := explained_append.1 h
  exact hshows' u t hsecond s (hshows s u hfirst)

private theorem Records.event {x : Opening α} {e : Host → Event} {a : Host → α}
    (hx : ∀ host, x host = (.returned (a host), host.note (e host)))
    (hQ : ∀ host b u s t, s ≤ b → b ≤ u → u ≤ t → Honest F b u (e host) → Q (a host) s t) : Records F x Q := by
  intro host a' host' h
  rw [hx] at h
  cases h
  refine ⟨[e host], rfl, ?_⟩
  intro s t h
  obtain ⟨b, u, hs, hb, hhonest, hrest⟩ := h.head
  exact hQ host b u s t hs hb hrest.le hhonest

theorem records_fstat (fd : Nat) : Records F (fstat fd) fun stat s t =>
    ∀ now, stat = some now → ∃ u, s ≤ u ∧ u ≤ t ∧ F.stat u (F.descriptor fd) = now := by
  refine Records.event (fun host => rfl) ?_
  intro host b u s t hs hb ht hhonest now hnow
  obtain ⟨v, hv, hvu, hstat⟩ := hhonest now hnow
  exact ⟨v, hs.trans hv, hvu.trans ht, hstat⟩

theorem records_reopen (fd : Nat) : Records F (reopen fd) fun _ s t => s ≤ t := by
  refine Records.event (fun host => rfl) ?_
  intro host b u s t hs hb ht _
  exact hs.trans (hb.trans ht)

/-- What has been found beneath an object, without leaving its mount if this was asked for. -/
def Found (F : Filesystem Object) (start : Object) (names : List Bytes) (sameMount : Prop) (fd s t : Nat) : Prop :=
  Descends F.entry s start names t (F.descriptor fd) ∧ (sameMount → F.mount (F.descriptor fd) = F.mount start)

theorem records_legacy (first : KernelCall) (flags : Bool → OpenFlags) {names : List Bytes} {walk : Walk Nat}
    {start : Object} (hflags : ∀ final, (flags final).nofollow = true) (hnames : ∀ c ∈ names, IsEntryName c)
    (hfirst : ∀ b u answer fd, WalkHonest F b u first answer → answer.opened = .ok fd → F.descriptor fd = start)
    (hwalked : ∀ answers, Walked first flags names (walk ⟨answers, []⟩)) :
    Records F (legacy walk) fun fd s t => Descends F.entry s start names t (F.descriptor fd) := by
  intro host fd host' h
  have hreturned := congrArg Prod.fst h
  have hstate := congrArg Prod.snd h
  dsimp only at hstate
  refine ⟨_, by rw [← hstate]; rfl, ?_⟩
  intro s t hexplained
  exact descends_of_walked hflags hnames hfirst (hwalked _) hreturned hexplained

/-- The object of a target is found beneath the directory, on its mount unless the legacy walk is allowed. -/
theorem records_openTarget {allowLegacy : Bool} {directory : Nat} {path : Bytes}
    (hnames : ∀ c ∈ components path, IsEntryName c) :
    Records F (openTarget allowLegacy directory path)
      (Found F (F.descriptor directory) (components path) (allowLegacy = false)) := by
  have hopen : Records F (openat2 (some directory) path (walkFlags false) ⟨true, true, true, true⟩) fun opened s t =>
      s ≤ t ∧ ∀ new, opened = .ok new → Found F (F.descriptor directory) (components path) True new s t := by
    refine Records.event (fun host => rfl) ?_
    intro host b u s t hs hb ht hhonest
    refine ⟨hs.trans (hb.trans ht), ?_⟩
    intro new hnew
    obtain ⟨hwalk, hmount⟩ := hhonest new hnew rfl rfl hnames
    exact ⟨(hwalk.fromEarlier hs).toLater ht, fun _ => hmount rfl⟩
  have hlegacy : Records F (legacy (openLegacyPath directory path)) fun fd s t =>
      Descends F.entry s (F.descriptor directory) (components path) t (F.descriptor fd) := by
    apply records_legacy (.duplicate directory) (fun final => walkFlags (!final)) (fun _ => rfl) hnames
    · intro b u answer fd hhonest hopened
      exact hhonest fd hopened
    · exact walked_openLegacyPath path directory
  refine Records.bind hopen fun opened => ?_
  cases opened with
  | ok fd =>
    refine Records.pure ?_
    intro u t hu s h
    obtain ⟨hwalk, hmount⟩ := h.2 fd rfl
    exact ⟨hwalk.toLater hu, fun _ => hmount trivial⟩
  | error number =>
    dsimp only
    by_cases hallowed : (isUnsupported number && allowLegacy) = true
    · rw [if_pos hallowed]
      refine hlegacy.mono ?_
      intro fd u t hwalk s h
      refine ⟨hwalk.fromEarlier h.1, ?_⟩
      intro hstrict
      rw [hstrict, Bool.and_false] at hallowed
      cases hallowed
    · rw [if_neg hallowed]
      exact Records.raise

theorem records_openRootStrict {allowLegacy : Bool} {path : Bytes} (hhead : path.head? = some kSlash)
    (hnames : ∀ c ∈ rootComponents path, IsEntryName c) :
    Records F (openRootStrict path allowLegacy) fun fd s t =>
      Descends F.entry s F.root (rootComponents path) t (F.descriptor fd) := by
  have hopen : Records F (openat2 none path (walkFlags true) ⟨false, true, true, false⟩) fun opened s t =>
      s ≤ t ∧ ∀ new, opened = .ok new → Descends F.entry s F.root (rootComponents path) t (F.descriptor new) := by
    refine Records.event (fun host => rfl) ?_
    intro host b u s t hs hb ht hhonest
    refine ⟨hs.trans (hb.trans ht), ?_⟩
    intro new hnew
    obtain ⟨hwalk, -⟩ := hhonest new hnew hhead rfl rfl hnames
    exact (hwalk.fromEarlier hs).toLater ht
  have hlegacy : Records F (legacy (openRootLegacy path)) fun fd s t =>
      Descends F.entry s F.root (rootComponents path) t (F.descriptor fd) := by
    apply records_legacy (.open (bytes "/") (walkFlags true)) (fun _ => walkFlags true) (fun _ => rfl) hnames
    · intro b u answer fd hhonest hopened
      exact hhonest fd hopened rfl
    · exact walked_openRootLegacy path
  refine Records.bind hopen fun opened => ?_
  cases opened with
  | ok fd =>
    refine Records.pure ?_
    intro u t hu s h
    exact (h.2 fd rfl).toLater hu
  | error number =>
    dsimp only
    by_cases hallowed : (isUnsupported number && allowLegacy) = true
    · rw [if_pos hallowed]
      refine hlegacy.mono ?_
      intro fd u t hwalk s h
      exact hwalk.fromEarlier h.1
    · rw [if_neg hallowed]
      split
      · exact Records.raise
      · exact Records.raise

/-! ### Files -/

theorem records_inspectTarget (root : OpenedRoot) (fd : Nat) : Records F (inspectTarget root fd) fun metadata s t =>
    metadata.kind = .regular ∧ ∃ u, s ≤ u ∧ u ≤ t ∧ F.stat u (F.descriptor fd) = metadata := by
  refine Records.bind (records_fstat fd) fun stat => ?_
  cases stat with
  | none => exact Records.raise
  | some metadata =>
    dsimp only
    by_cases hlink : metadata.kind = .symlink
    · rw [if_pos hlink]
      exact Records.raise
    rw [if_neg hlink]
    by_cases hregular : metadata.kind ≠ .regular
    · rw [if_pos hregular]
      exact Records.raise
    rw [if_neg hregular]
    split
    · exact Records.raise
    refine Records.pure ?_
    intro u t hu s h
    obtain ⟨v, hv, hvu, hstat⟩ := h metadata rfl
    exact ⟨not_not.1 hregular, v, hv, hvu.trans hu, hstat⟩

/-- What is read is the object that has been inspected, as large as it was when it was looked at again. -/
structure Reread (metadata : Stat) (maxBytes : Nat) (file : OpenedFile) (now : Stat) : Prop where
  same : sameObject metadata now = true
  regular : now.kind = .regular
  size : now.size = file.observedSize
  bounded : file.observedSize ≤ maxBytes
  limit : file.maxReadBytes = maxBytes

theorem records_reopenTarget (root : OpenedRoot) (fd : Nat) (metadata : Stat) :
    Records F (reopenTarget root fd metadata) fun file s t =>
      ∃ v, s ≤ v ∧ v ≤ t ∧ Reread metadata root.maxFileBytes file (F.stat v (F.descriptor file.fd)) := by
  refine Records.bind (records_reopen fd) fun opened => ?_
  cases opened with
  | error number =>
    dsimp only
    split
    · exact Records.raise
    · exact Records.raise
  | ok readable =>
    refine Records.bind (records_fstat readable) fun stat => ?_
    cases stat with
    | none => exact Records.raise
    | some now =>
      dsimp only
      by_cases hsame : (!sameObject metadata now) = true ∨ now.kind ≠ .regular
      · rw [if_pos hsame]
        exact Records.raise
      rw [if_neg hsame]
      by_cases hsize : now.size < 0 ∨ (root.maxFileBytes : Int) < now.size
      · rw [if_pos hsize]
        exact Records.raise
      rw [if_neg hsize]
      refine Records.pure ?_
      intro u t hu b h s hs
      obtain ⟨v, hv, hvu, hstat⟩ := h now rfl
      rw [not_or, Bool.not_eq_true', Bool.not_eq_false, not_not] at hsame
      rw [not_or, Int.not_lt, Int.not_lt] at hsize
      refine ⟨v, hs.trans hv, hvu.trans hu, ?_⟩
      rw [hstat]
      exact ⟨hsame.1, hsame.2, (Int.toNat_of_nonneg hsize.1).symm, Int.toNat_le.2 hsize.2, rfl⟩

/-- The file that has been opened between two moments: it was found beneath the directory, was a regular file then, and
is what is read. -/
def Reached (F : Filesystem Object) (directory : Object) (names : List Bytes) (sameMount : Prop) (maxBytes : Nat)
    (file : OpenedFile) (s t : Nat) : Prop :=
  ∃ o u v, Descends F.entry s directory names u o ∧ (sameMount → F.mount o = F.mount directory) ∧ u ≤ v ∧ v ≤ t ∧
    (F.stat u o).kind = .regular ∧ Reread (F.stat u o) maxBytes file (F.stat v (F.descriptor file.fd))

theorem records_openBeneath {allowLegacy : Bool} {root : OpenedRoot} {path : Bytes}
    (hnames : ∀ c ∈ components path, IsEntryName c) :
    Records F (openBeneath allowLegacy root path)
      (Reached F (F.descriptor root.directory) (components path) (allowLegacy = false) root.maxFileBytes) := by
  refine Records.bind (records_openTarget hnames) fun fd => ?_
  refine Records.bind (records_inspectTarget root fd) fun metadata => ?_
  refine (records_reopenTarget root fd metadata).mono ?_
  rintro file w t ⟨v, hwv, hvt, hreread⟩ b ⟨hregular, u, hbu, huw, hstat⟩ s ⟨hwalk, hmount⟩
  refine ⟨F.descriptor fd, u, v, hwalk.toLater hbu, hmount, huw.trans hwv, hvt, ?_, ?_⟩
  · rw [hstat]
    exact hregular
  · rw [hstat]
    exact hreread

/-! ### Roots -/

/-- The root was opened between two moments as the configuration says: what its path led to was a directory. -/
def OpenedFrom (F : Filesystem Object) (limits : OpeningLimits) (root : OpenedRoot) (config : RootPolicyConfig)
    (s t : Nat) : Prop :=
  root.name = config.name ∧ root.maxFileBytes = config.maxFileBytes ∧ config.maxFileBytes ≤ limits.maxFileBytes ∧
    (∀ c ∈ rootComponents config.path, IsEntryName c) ∧
    Descends F.entry s F.root (rootComponents config.path) t (F.descriptor root.directory) ∧
    ∃ u, s ≤ u ∧ u ≤ t ∧ (F.stat u (F.descriptor root.directory)).kind = .directory

theorem OpenedFrom.widen {limits : OpeningLimits} {root : OpenedRoot} {config : RootPolicyConfig} {r s t w : Nat}
    (h : OpenedFrom F limits root config s t) (hr : r ≤ s) (hw : t ≤ w) : OpenedFrom F limits root config r w := by
  obtain ⟨hname, hbytes, hlimit, hnames, hwalk, u, hu, hut, hkind⟩ := h
  exact ⟨hname, hbytes, hlimit, hnames, (hwalk.fromEarlier hr).toLater hw, u, hr.trans hu, hut.trans hw, hkind⟩

theorem isEntryName_of_validRootPath {path : Bytes} {limit : Nat} (h : validRootPath path limit = true) :
    path.head? = some kSlash ∧ ∀ c ∈ rootComponents path, IsEntryName c := by
  obtain ⟨hhead, -, hzero, hproper⟩ := validRootPath_eq_true.1 h
  exact ⟨hhead, fun c hc => ⟨isName_of_mem_rootComponents hzero hc, hproper c hc⟩⟩

theorem isEntryName_of_validateRelativePath {path : Bytes} {limit : Nat} (h : validateRelativePath path limit = none) :
    ∀ c ∈ components path, IsEntryName c := by
  obtain ⟨-, -, hzero, hproper⟩ := validateRelativePath_eq_none.1 h
  exact fun c hc => ⟨isName_of_mem_components hzero hc, hproper c hc⟩

theorem records_openRoot (limits : OpeningLimits) {config : RootPolicyConfig}
    (hpath : validRootPath config.path limits.maxPathBytes = true) :
    Records F (openRoot limits config) fun fd s t =>
      Descends F.entry s F.root (rootComponents config.path) t (F.descriptor fd) ∧
        ∃ u, s ≤ u ∧ u ≤ t ∧ (F.stat u (F.descriptor fd)).kind = .directory := by
  obtain ⟨hhead, hnames⟩ := isEntryName_of_validRootPath hpath
  refine Records.bind (records_openRootStrict hhead hnames) fun fd => ?_
  refine Records.bind (records_fstat fd) fun stat => ?_
  by_cases hkind : stat.any (·.kind = .directory) = true
  · rw [if_pos hkind]
    refine Records.pure ?_
    intro w t hw b h s hwalk
    obtain ⟨now, hnow, hdirectory⟩ := (Option.any_eq_true _ _).1 hkind
    obtain ⟨u, hu, huw, hstat⟩ := h now hnow
    refine ⟨hwalk.toLater (hu.trans (huw.trans hw)), u, hwalk.le.trans hu, huw.trans hw, ?_⟩
    rw [hstat]
    exact of_decide_eq_true hdirectory
  · rw [if_neg hkind]
    exact Records.raise

theorem records_createRoots (configs : List RootPolicyConfig) (policy : OpenedPolicy) :
    Records F (createRoots configs policy) fun created s t => s ≤ t ∧ created.limits = policy.limits ∧
      ∀ root ∈ created.roots, root ∈ policy.roots ∨ ∃ config ∈ configs, OpenedFrom F policy.limits root config s t := by
  induction configs generalizing policy with
  | nil => exact Records.pure fun s t h => ⟨h, rfl, fun root hroot => .inl hroot⟩
  | cons config configs ih =>
    unfold createRoots
    split
    · rename_i hname
      split
      · exact Records.raise
      rename_i hpath
      rw [Bool.not_eq_true', Bool.not_eq_false] at hpath
      split
      · exact Records.raise
      rename_i hbytes
      rw [not_or, Nat.not_lt] at hbytes
      split
      · exact Records.raise
      · refine Records.bind (records_openRoot policy.limits hpath) fun directory => ?_
        refine (ih _).mono ?_
        rintro created u t ⟨hut, hlimits, hroots⟩ s ⟨hwalk, v, hsv, hvu, hkind⟩
        refine ⟨hwalk.le.trans hut, hlimits, ?_⟩
        intro root hroot
        rcases hroots root hroot with hold | ⟨config', hconfig', hopened⟩
        · rcases List.mem_append.1 hold with hold | hadded
          · exact .inl hold
          · right
            refine ⟨config, List.mem_cons_self, ?_⟩
            rw [List.mem_singleton.1 hadded]
            exact ⟨rfl, rfl, hbytes.2, (isEntryName_of_validRootPath hpath).2, hwalk.toLater hut, v, hsv,
              hvu.trans hut, hkind⟩
        · right
          exact ⟨config', List.mem_cons_of_mem _ hconfig', hopened.widen hwalk.le (Nat.le_refl t)⟩
    · exact Records.raise

/-! ### The main result -/

theorem openRegularFile_returned {policy : OpenedPolicy} {rootName path : Bytes} {host host' : Host} {file : OpenedFile}
    (h : policy.openRegularFile rootName path host = (.returned file, host')) :
    ∃ root ∈ policy.roots, root.name = rootName ∧ validateRelativePath path policy.limits.maxPathBytes = none ∧
      openBeneath policy.limits.allowLegacyDescriptorWalk root path host = (.returned file, host') := by
  unfold OpenedPolicy.openRegularFile at h
  cases hroot : policy.roots.find? (·.name == rootName) with
  | none =>
    rw [hroot] at h
    cases h
  | some root =>
    rw [hroot] at h
    dsimp only at h
    cases hpath : validateRelativePath path policy.limits.maxPathBytes with
    | some pathError =>
      rw [hpath] at h
      cases h
    | none =>
      rw [hpath] at h
      have hname : root.name = rootName := by simpa using List.find?_some hroot
      exact ⟨root, List.mem_of_find?_eq_some hroot, hname, rfl, h⟩

/-- What the tools know of a file that has been opened, or the error that they report. -/
def Corresponds : Except PolicyError ReadOnlyFile → Ending PolicyError OpenedFile → Prop
  | .ok file, .returned opened => file.observedSize = opened.observedSize ∧ file.maxReadBytes = opened.maxReadBytes
  | .error e, .raised e' => e = e'
  | _, _ => False

/-- The tools open a file through their policy as the opened policy does. -/
theorem openRegularFile_corresponds (policy : OpenedPolicy) (rootName path : Bytes) (host : Host)
    (opened : RootHandle → Except PolicyError ReadOnlyFile)
    (h : ∀ root ∈ policy.roots, Corresponds (opened root.toRootHandle)
      (openBeneath policy.limits.allowLegacyDescriptorWalk root path host).1) :
    Corresponds (policy.toPolicy.openRegularFile rootName path opened)
      (policy.openRegularFile rootName path host).1 := by
  unfold FilesystemPolicy.openRegularFile OpenedPolicy.openRegularFile
  have hfind : policy.toPolicy.roots.find? (·.name == rootName) =
      (policy.roots.find? (·.name == rootName)).map (·.toRootHandle) := List.find?_map ..
  rw [hfind]
  cases hroot : policy.roots.find? (·.name == rootName) with
  | none => rfl
  | some root =>
    rw [Option.map_some]
    dsimp only
    have hlimit : policy.toPolicy.maxPathBytes = policy.limits.maxPathBytes := rfl
    rw [hlimit]
    cases validateRelativePath path policy.limits.maxPathBytes with
    | some pathError => rfl
    | none => exact h root (List.mem_of_find?_eq_some hroot)

/-- The roots of a created policy were opened as the configuration says. -/
theorem createPolicy_roots {config : FilesystemPolicyConfig} {limits : OpeningLimits} {replies : Nat → Reply}
    {policy : OpenedPolicy} {created : Host} {r s : Nat}
    (h : createPolicy config limits ⟨replies, []⟩ = (.returned policy, created))
    (hcreated : Explained F r created.log s) :
    policy.limits = limits ∧ ∀ root ∈ policy.roots, ∃ rootConfig ∈ config.roots,
      OpenedFrom F limits root rootConfig r s := by
  unfold createPolicy at h
  split at h
  · cases h
  obtain ⟨log, hlog, hshows⟩ := records_createRoots (F := F) config.roots _ _ _ _ h
  rw [hlog, List.nil_append] at hcreated
  obtain ⟨-, hlimits, hall⟩ := hshows r s hcreated
  refine ⟨hlimits, ?_⟩
  intro root hroot
  rcases hall root hroot with hnone | hfrom
  · cases hnone
  · exact hfrom

/-- Whatever happens to the filesystem meanwhile, what a created policy opens is what lay, name by name, beneath one of
the configured roots, and that beneath the filesystem root. -/
theorem file_contained {config : FilesystemPolicyConfig} {limits : OpeningLimits} {replies replies' : Nat → Reply}
    {policy : OpenedPolicy} {created opened : Host} {rootName path : Bytes} {file : OpenedFile} {r s t w : Nat}
    (hcreate : createPolicy config limits ⟨replies, []⟩ = (.returned policy, created))
    (hcreated : Explained F r created.log s)
    (hopen : policy.openRegularFile rootName path ⟨replies', []⟩ = (.returned file, opened))
    (hopened : Explained F t opened.log w) :
    ∃ root ∈ policy.roots, ∃ rootConfig ∈ config.roots, rootConfig.name = rootName ∧
      OpenedFrom F limits root rootConfig r s ∧ (∀ c ∈ components path, IsEntryName c) ∧
      Reached F (F.descriptor root.directory) (components path) (limits.allowLegacyDescriptorWalk = false)
        rootConfig.maxFileBytes file t w := by
  obtain ⟨hlimits, hroots⟩ := createPolicy_roots hcreate hcreated
  obtain ⟨root, hroot, hname, hpath, hrun⟩ := openRegularFile_returned hopen
  obtain ⟨rootConfig, hconfig, hfrom⟩ := hroots root hroot
  have hnames := isEntryName_of_validateRelativePath hpath
  obtain ⟨log, hlog, hshows⟩ := records_openBeneath (F := F) hnames _ _ _ hrun
  rw [hlog, List.nil_append] at hopened
  have hreached := hshows t w hopened
  rw [hlimits, hfrom.2.1] at hreached
  exact ⟨root, hroot, rootConfig, hconfig, hfrom.1.symm.trans hname, hfrom, hnames, hreached⟩

end

/-! ### A file in a filesystem at rest -/

/-- Every name is an entry of everything, and what lies three names deep is a file. -/
def restingFilesystem : Filesystem (List Bytes) where
  root := []
  entry _ o name o' := o' = o ++ [name]
  stat _ o := ⟨1, o.length, if o.length = 3 then .regular else .directory, 0o644, 5⟩
  mount _ := 0
  descriptor fd := if fd = 3 then [bytes "srv"] else [bytes "srv", bytes "logs", bytes "app"]

def srvConfig : FilesystemPolicyConfig where
  roots := [⟨bytes "srv", bytes "/srv", 1024⟩]

def directoryStat : Stat := ⟨1, 1, .directory, 0o644, 5⟩

def fileStat : Stat := ⟨1, 3, .regular, 0o644, 5⟩

/-- Every call opens a descriptor, the number of which is that of the call. -/
def srvReplies (stat : Stat) (base : Nat) : Nat → Reply := fun n => ⟨.ok (base + n), some stat⟩

def srvPolicy : OpenedPolicy :=
  ({ limits := {} } : OpenedPolicy).add ⟨⟨bytes "srv", 1024⟩, 3⟩ (by decide +kernel) List.not_mem_nil

def srvCreated : List Event :=
  [.openat2 none (bytes "/srv") (walkFlags true) ⟨false, true, true, false⟩ (.ok 3), .fstat 3 (some directoryStat)]

def srvOpened : List Event :=
  [.openat2 (some 3) (bytes "logs/app") (walkFlags false) ⟨true, true, true, true⟩ (.ok 4), .fstat 4 (some fileStat),
    .reopen 4 (.ok 6), .fstat 6 (some fileStat)]

private theorem createPolicy_srv : createPolicy srvConfig {} ⟨srvReplies directoryStat 3, []⟩ =
    (.returned srvPolicy, ⟨srvReplies directoryStat 3, srvCreated⟩) := by
  have hpath : validRootPath (bytes "/srv") 4096 = true := by decide +kernel
  unfold createPolicy
  rw [if_neg (by decide)]
  unfold srvConfig
  rw [createRoots]
  rw [dif_pos (by decide +kernel), if_neg (by rw [hpath]; decide), if_neg (by decide)]
  split
  · rename_i hold
    cases hold
  · rfl

private theorem openRegularFile_srv :
    srvPolicy.openRegularFile (bytes "srv") (bytes "logs/app") ⟨srvReplies fileStat 4, []⟩ =
      (.returned ⟨6, 5, 1024⟩, ⟨srvReplies fileStat 4, srvOpened⟩) := by
  have hpath : validateRelativePath (bytes "logs/app") 4096 = none := by decide +kernel
  have hroot : srvPolicy.roots.find? (·.name == bytes "srv") = some ⟨⟨bytes "srv", 1024⟩, 3⟩ := rfl
  unfold OpenedPolicy.openRegularFile
  rw [hroot]
  dsimp only
  have hlimit : srvPolicy.limits.maxPathBytes = 4096 := rfl
  rw [hlimit, hpath]
  rfl

private theorem explained_created : Explained restingFilesystem 0 srvCreated 1 := by
  have hnames : rootComponents (bytes "/srv") = [bytes "srv"] := by decide +kernel
  refine .cons (Nat.le_refl 0) (Nat.le_refl 0) ?_ (.cons (Nat.zero_le 1) (Nat.le_refl 1) ?_ (.nil (Nat.le_refl 1)))
  · intro new hnew _ _ _ _
    cases hnew
    rw [hnames]
    exact ⟨.cons (Nat.le_refl 0) rfl (.nil (Nat.le_refl 0)), fun _ => rfl⟩
  · intro now hnow
    cases hnow
    exact ⟨1, Nat.le_refl 1, Nat.le_refl 1, rfl⟩

private theorem explained_opened : Explained restingFilesystem 2 srvOpened 3 := by
  have hnames : components (bytes "logs/app") = [bytes "logs", bytes "app"] := by decide +kernel
  have hstat : ∀ fd, fd ≠ 3 → Honest restingFilesystem 3 3 (.fstat fd (some fileStat)) := by
    intro fd hfd now hnow
    cases hnow
    refine ⟨3, Nat.le_refl 3, Nat.le_refl 3, ?_⟩
    have hobject : restingFilesystem.descriptor fd = [bytes "srv", bytes "logs", bytes "app"] := if_neg hfd
    rw [hobject]
    rfl
  have hread : Explained restingFilesystem 2 (srvOpened.drop 1) 3 :=
    .cons (by decide) (Nat.le_refl 3) (hstat 4 (by decide)) (.cons (Nat.le_refl 3) (Nat.le_refl 3) trivial
      (.cons (Nat.le_refl 3) (Nat.le_refl 3) (hstat 6 (by decide)) (.nil (Nat.le_refl 3))))
  refine .cons (Nat.le_refl 2) (Nat.le_refl 2) ?_ hread
  intro new hnew _ _ _
  cases hnew
  rw [hnames]
  exact ⟨.cons (Nat.le_refl 2) rfl (.cons (Nat.le_refl 2) rfl (.nil (Nat.le_refl 2))), fun _ => rfl⟩

theorem file_contained_srv :
    ∃ root ∈ srvPolicy.roots, ∃ rootConfig ∈ srvConfig.roots, rootConfig.name = bytes "srv" ∧
      OpenedFrom restingFilesystem {} root rootConfig 0 1 ∧
      (∀ c ∈ components (bytes "logs/app"), IsEntryName c) ∧
      Reached restingFilesystem (restingFilesystem.descriptor root.directory) (components (bytes "logs/app"))
        (({} : OpeningLimits).allowLegacyDescriptorWalk = false) rootConfig.maxFileBytes ⟨6, 5, 1024⟩ 2 3 :=
  file_contained createPolicy_srv explained_created openRegularFile_srv explained_opened

end FilePolicy

end NativeMcp
