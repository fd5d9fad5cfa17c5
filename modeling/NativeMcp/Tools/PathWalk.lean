import NativeMcp.Lib.Program
import NativeMcp.Tools.FilePolicy

/-!
# Walking a path without `openat2`

`open_legacy_path` and `open_root_legacy` over a kernel whose answers are arbitrary and whose log keeps every call.
What the validation of a path has cut at its slashes is what the walk opens: one `openat` for each component, in order,
each on the descriptor that the one before returned (`walk_agrees`).
-/

namespace NativeMcp

namespace FilePolicy

open Program

/-! ### The kernel -/

inductive Errno where
  | noSystemCall
  | tooBig
  | invalid
  | loop
  | crossDevice
  | noEntry
  | notDirectory
  | access
  | notPermitted
  | other (message : String)
  deriving DecidableEq, Repr

inductive FileKind where
  | directory
  | symlink
  | other
  deriving DecidableEq, Repr

/-- `O_PATH`, `O_CLOEXEC`, `O_NOFOLLOW` and `O_DIRECTORY`. -/
structure OpenFlags where
  path : Bool
  cloexec : Bool
  nofollow : Bool
  directory : Bool
  deriving DecidableEq, Repr

inductive KernelCall where
  | duplicate (fd : Nat)
  | open (path : Bytes) (flags : OpenFlags)
  | openat (directory : Nat) (component : Bytes) (flags : OpenFlags)
  | fstat (fd : Nat)
  | fstatat (directory : Nat) (component : Bytes)
  deriving DecidableEq, Repr

/-- A descriptor or an `errno`, and what a successful `stat` says. -/
structure Answer where
  opened : Except Errno Nat
  kind : Option FileKind

structure Kernel where
  answer : Nat → Answer
  log : List (KernelCall × Answer) := []

abbrev Walk (α : Type) := Program Kernel PolicyError α

def ask (call : KernelCall) : Walk Answer := fun s =>
  (.returned (s.answer s.log.length), { s with log := s.log ++ [(call, s.answer s.log.length)] })

/-! ### The walks -/

def mapOpenError : Errno → PolicyError
  | .noSystemCall | .tooBig | .invalid => error .kernelUnsupported "required openat2 containment is unavailable"
  | .loop | .crossDevice => error .resolutionDenied "path resolution crossed a denied boundary"
  | .noEntry | .notDirectory => error .targetMissing "target does not exist beneath the selected root"
  | .access | .notPermitted => error .permissionDenied "permission denied while opening target"
  | .other message => error .ioError ("open failed: " ++ message)

def walkFlags (directory : Bool) : OpenFlags where
  path := true
  cloexec := true
  nofollow := true
  directory := directory

/-- One round of `open_legacy_path`. -/
def openComponent (current : Nat) (component : Bytes) (final : Bool) : Walk Nat := do
  let next ← ask (.openat current component (walkFlags (!final)))
  match next.opened with
  | .error number =>
    if number = .loop ∨ number = .notDirectory then do
      let link ← ask (.fstatat current component)
      if link.kind = some .symlink then
        raise (error .resolutionDenied "legacy descriptor walk rejected a symbolic link")
      else raise (mapOpenError number)
    else raise (mapOpenError number)
  | .ok fd => do
    let metadata ← ask (.fstat fd)
    match metadata.kind with
    | none => raise (error .ioError "failed to inspect path component")
    | some kind =>
      if kind = .symlink then raise (error .resolutionDenied "legacy descriptor walk rejected a symbolic link")
      else if !final ∧ kind ≠ .directory then raise (error .targetMissing "path component is not a directory")
      else pure fd

/-- One round of `open_root_legacy`. -/
def openRootComponent (current : Nat) (component : Bytes) (_final : Bool) : Walk Nat := do
  let next ← ask (.openat current component (walkFlags true))
  match next.opened with
  | .error _ =>
    raise (error .openRootFailed "configured root contains a missing, non-directory, or symlink component")
  | .ok fd => do
    let metadata ← ask (.fstat fd)
    if metadata.kind = some .directory then pure fd
    else raise (error .openRootFailed "configured root could not be validated")

/-- The loop of both: from `start` on, one component after the other. -/
def walk (openOne : Nat → Bytes → Bool → Walk Nat) (exhausted : PolicyError) (path : Bytes) (current start : Nat) :
    Walk Nat :=
  if start < path.length then
    match h : findSlash path start with
    | none => openOne current (componentAt path start none) true
    | some slash => do
      let next ← openOne current (componentAt path start (some slash)) false
      walk openOne exhausted path next (slash + 1)
  else raise exhausted
termination_by path.length - start
decreasing_by
  have := le_of_findSlash h
  omega

def openLegacyPath (rootFd : Nat) (path : Bytes) : Walk Nat := do
  let current ← ask (.duplicate rootFd)
  match current.opened with
  | .error _ => raise (error .ioError "failed to duplicate root descriptor")
  | .ok fd => walk openComponent (error .invalidRelativePath "empty path") path fd 0

def openRootLegacy (path : Bytes) : Walk Nat := do
  let current ← ask (.open (bytes "/") (walkFlags true))
  match current.opened with
  | .error _ => raise (error .openRootFailed "could not open filesystem root")
  | .ok fd =>
    if path = bytes "/" then pure fd
    else walk openRootComponent (error .openRootFailed "invalid root path") path fd 1

/-! ### Components -/

/-- The names between the slashes. -/
def components (path : Bytes) : List Bytes := path.splitOn kSlash

/-- The names of an absolute path. -/
def rootComponents (path : Bytes) : List Bytes := if path = [kSlash] then [] else components (path.drop 1)

theorem components_of_noSlash {path : Bytes} {start : Nat} (h : findSlash path start = none) :
    components (path.drop start) = [componentAt path start none] := by
  have hnone : kSlash ∉ path.drop start := List.idxOf?_eq_none_iff.1 (Option.map_eq_none_iff.1 h)
  have hwhole : componentAt path start none = path.drop start := by
    unfold componentAt
    rw [Option.getD_none, List.take_of_length_le (by rw [List.length_drop])]
  rw [hwhole]
  exact List.splitOn_eq_singleton hnone

theorem components_of_slash {path : Bytes} {start slash : Nat} (h : findSlash path start = some slash) :
    components (path.drop start) =
      componentAt path start (some slash) :: components (path.drop (slash + 1)) := by
  obtain ⟨i, hi, rfl⟩ := Option.map_eq_some_iff.1 h
  obtain ⟨hlt, hget, hbefore⟩ := List.idxOf?_eq_some_iff.1 hi
  have hcomponent : componentAt path start (some (start + i)) = (path.drop start).take i := by
    unfold componentAt
    rw [Option.getD_some, Nat.add_sub_cancel_left]
  have hfree : kSlash ∉ (path.drop start).take i := by
    intro hm
    obtain ⟨j, hj, he⟩ := List.mem_take_iff_getElem.1 hm
    exact hbefore j (by omega) he
  have hcut : path.drop start = (path.drop start).take i ++ kSlash :: path.drop (start + i + 1) := by
    have hdrop : (path.drop start).drop i = kSlash :: path.drop (start + i + 1) := by
      rw [List.drop_eq_getElem_cons hlt, hget, List.drop_drop]
      rfl
    rw [← hdrop, List.take_append_drop]
  rw [hcomponent]
  conv => lhs; rw [hcut]
  unfold components
  rw [List.splitOn_append_cons_self, List.splitOn_eq_singleton hfree, List.singleton_append]

theorem hasDeniedComponent_eq {path : Bytes} {start : Nat} (h : start ≤ path.length) :
    hasDeniedComponent path start = (components (path.drop start)).any isDenied := by
  induction hn : path.length - start using Nat.strongRecOn generalizing start with
  | _ n ih =>
    rw [hasDeniedComponent, if_pos h]
    split
    · rename_i hs
      rw [components_of_noSlash hs, List.any_cons, List.any_nil, Bool.or_false]
    · rename_i slash hs
      obtain ⟨hle, hlt⟩ := le_of_findSlash hs
      rw [components_of_slash hs, List.any_cons, ih (path.length - (slash + 1)) (by omega) (by omega) rfl]

/-- A name that is neither empty nor a dot component. -/
def IsProper (component : Bytes) : Prop := component ≠ [] ∧ component ≠ bytes "." ∧ component ≠ bytes ".."

private theorem isDenied_eq_false {component : Bytes} : isDenied component = false ↔ IsProper component := by
  simp [isDenied, IsProper, and_assoc]

private theorem any_isDenied {names : List Bytes} : names.any isDenied = false ↔ ∀ c ∈ names, IsProper c := by
  rw [List.any_eq_false]
  constructor
  · intro h c hc
    exact isDenied_eq_false.1 (by simpa using h c hc)
  · intro h c hc
    rw [isDenied_eq_false.2 (h c hc)]
    exact Bool.false_ne_true

private theorem nil_mem_components_of_head {path : Bytes} (h : path.head? = some kSlash) : [] ∈ components path := by
  cases path with
  | nil => cases h
  | cons b rest =>
    obtain rfl : b = kSlash := Option.some.inj h
    have hsplit := List.splitOn_append_cons_self (a := kSlash) [] rest
    rw [List.nil_append, List.splitOn_nil] at hsplit
    unfold components
    rw [hsplit]
    exact List.mem_append_left _ (List.mem_singleton_self _)

private theorem nil_mem_components_of_last {path : Bytes} (h : path.getLast? = some kSlash) : [] ∈ components path := by
  obtain ⟨front, rfl⟩ := List.getLast?_eq_some_iff.1 h
  have hsplit := List.splitOn_append_cons_self (a := kSlash) front []
  unfold components
  rw [hsplit, List.splitOn_nil]
  exact List.mem_append_right _ (List.mem_singleton_self _)

/-- What `validate_relative_path` accepts. -/
theorem validateRelativePath_eq_none {path : Bytes} {limit : Nat} :
    validateRelativePath path limit = none ↔
      path ≠ [] ∧ path.length ≤ limit ∧ 0 ∉ path ∧ ∀ c ∈ components path, IsProper c := by
  have hloop : hasDeniedComponent path 0 = false ↔ ∀ c ∈ components path, IsProper c := by
    rw [hasDeniedComponent_eq (Nat.zero_le _), List.drop_zero, any_isDenied]
  constructor
  · intro h
    unfold validateRelativePath at h
    split at h
    · cases h
    rename_i hshape
    simp only [not_or] at hshape
    split at h
    · cases h
    rename_i hlength
    split at h
    · cases h
    rename_i hdenied
    exact ⟨hshape.1, by omega, hshape.2.2.2, hloop.1 (Bool.eq_false_iff.2 hdenied)⟩
  · rintro ⟨hne, hlength, hzero, hproper⟩
    have hends : ¬ (path = [] ∨ path.head? = some kSlash ∨ path.getLast? = some kSlash ∨ 0 ∈ path) := by
      rintro (he | hh | hl | hz)
      · exact hne he
      · exact (hproper [] (nil_mem_components_of_head hh)).1 rfl
      · exact (hproper [] (nil_mem_components_of_last hl)).1 rfl
      · exact hzero hz
    unfold validateRelativePath
    rw [if_neg hends, if_neg (by omega), if_neg (by rw [hloop.2 hproper]; exact Bool.false_ne_true)]

/-- What `valid_root_path` accepts. -/
theorem validRootPath_eq_true {path : Bytes} {limit : Nat} :
    validRootPath path limit = true ↔
      path.head? = some kSlash ∧ path.length ≤ limit ∧ 0 ∉ path ∧ ∀ c ∈ rootComponents path, IsProper c := by
  have hloop : path ≠ [] → path ≠ [kSlash] →
      (hasDeniedComponent path 1 = false ↔ ∀ c ∈ rootComponents path, IsProper c) := by
    intro hne hroot
    have hlength : 1 ≤ path.length := List.length_pos_iff.2 hne
    rw [hasDeniedComponent_eq hlength, any_isDenied, rootComponents, if_neg hroot]
  constructor
  · intro h
    unfold validRootPath at h
    split at h
    · cases h
    rename_i hshape
    simp only [not_or, ne_eq, Decidable.not_not, Nat.not_lt] at hshape
    obtain ⟨hne, hhead, hlength, hzero⟩ := hshape
    refine ⟨hhead, hlength, hzero, ?_⟩
    by_cases hroot : path = [kSlash]
    · rw [rootComponents, if_pos hroot]
      exact fun c hc => absurd hc List.not_mem_nil
    · rw [if_neg hroot] at h
      split at h
      · cases h
      · exact (hloop hne hroot).1 (by simpa using h)
  · rintro ⟨hhead, hlength, hzero, hproper⟩
    have hne : path ≠ [] := by
      rintro rfl
      cases hhead
    unfold validRootPath
    rw [if_neg (by simp [hne, hhead, hlength, hzero])]
    by_cases hroot : path = [kSlash]
    · rw [if_pos hroot]
    · have hlast : path.getLast? ≠ some kSlash := by
        intro hl
        have htail : (path.drop 1).getLast? = some kSlash := by
          cases path with
          | nil => cases hl
          | cons b rest =>
            obtain rfl : b = kSlash := Option.some.inj hhead
            cases rest with
            | nil => exact absurd rfl hroot
            | cons c rest => rwa [List.getLast?_cons_cons] at hl
        have hmem : [] ∈ rootComponents path := by
          rw [rootComponents, if_neg hroot]
          exact nil_mem_components_of_last htail
        exact (hproper [] hmem).1 rfl
      rw [if_neg hroot, if_neg hlast, (hloop hne hroot).2 hproper]
      rfl

private theorem components_bytes {path c : Bytes} (hc : c ∈ components path) : kSlash ∉ c ∧ ∀ b ∈ c, b ∈ path := by
  induction path generalizing c with
  | nil =>
    rw [components, List.splitOn_nil, List.mem_singleton] at hc
    subst hc
    exact ⟨List.not_mem_nil, fun b hb => absurd hb List.not_mem_nil⟩
  | cons b rest ih =>
    rw [components, List.splitOn_cons_eq_if_modifyHead] at hc
    split at hc
    · rcases List.mem_cons.1 hc with rfl | hc
      · exact ⟨List.not_mem_nil, fun b hb => absurd hb List.not_mem_nil⟩
      · obtain ⟨hslash, hmem⟩ := ih hc
        exact ⟨hslash, fun x hx => List.mem_cons_of_mem _ (hmem x hx)⟩
    · rename_i hb
      cases hs : rest.splitOn kSlash with
      | nil => exact absurd hs (List.splitOn_ne_nil _ _)
      | cons first more =>
        have hfirst := @ih first (by rw [components, hs]; exact List.mem_cons_self)
        rw [hs, List.modifyHead_cons] at hc
        rcases List.mem_cons.1 hc with rfl | hc
        · constructor
          · rw [List.mem_cons, not_or]
            exact ⟨fun he => hb (by rw [he]; exact beq_self_eq_true b), hfirst.1⟩
          · intro x hx
            rcases List.mem_cons.1 hx with rfl | hx
            · exact List.mem_cons_self
            · exact List.mem_cons_of_mem _ (hfirst.2 x hx)
        · obtain ⟨hslash, hmem⟩ := ih (by rw [components, hs]; exact List.mem_cons_of_mem _ hc)
          exact ⟨hslash, fun x hx => List.mem_cons_of_mem _ (hmem x hx)⟩

/-- A component is a single name for the kernel. -/
def IsName (component : Bytes) : Prop := kSlash ∉ component ∧ 0 ∉ component

theorem isName_of_mem_components {path c : Bytes} (hz : 0 ∉ path) (hc : c ∈ components path) : IsName c :=
  ⟨(components_bytes hc).1, fun h => hz ((components_bytes hc).2 0 h)⟩

theorem isName_of_mem_rootComponents {path c : Bytes} (hz : 0 ∉ path) (hc : c ∈ rootComponents path) : IsName c := by
  unfold rootComponents at hc
  split at hc
  · exact absurd hc List.not_mem_nil
  · exact isName_of_mem_components (fun h => hz (List.mem_of_mem_drop h)) hc

/-- Where names lead from a place beneath the root: `..` leads up, and nothing is above the root. -/
def resolve : List Bytes → List Bytes → Option (List Bytes)
  | place, [] => some place
  | place, name :: names =>
    if name = [] ∨ name = bytes "." then resolve place names
    else if name = bytes ".." then if place = [] then none else resolve place.dropLast names
    else resolve (place ++ [name]) names

theorem resolve_proper {names : List Bytes} (h : ∀ c ∈ names, IsProper c) (place : List Bytes) :
    resolve place names = some (place ++ names) := by
  induction names generalizing place with
  | nil => rw [resolve, List.append_nil]
  | cons name names ih =>
    obtain ⟨hne, hdot, hparent⟩ := h name List.mem_cons_self
    rw [resolve, if_neg (by simp [hne, hdot]), if_neg hparent, ih fun c hc => h c (List.mem_cons_of_mem _ hc)]
    simp

/-! ### What the walks open -/

structure Openat where
  directory : Nat
  component : Bytes
  flags : OpenFlags
  opened : Except Errno Nat

/-- The `openat` calls of a log. -/
def openats (log : List (KernelCall × Answer)) : List Openat :=
  log.filterMap fun
    | (.openat directory component flags, answer) => some ⟨directory, component, flags, answer.opened⟩
    | _ => none

/-- The components in order from the first on, each opened on the descriptor that was returned for the one before it;
`flags` are those of a component, given whether it is the last.  A failed call is the last one. -/
def Follows (flags : Bool → OpenFlags) : Nat → List Bytes → List Openat → Prop
  | _, _, [] => True
  | _, [], _ :: _ => False
  | fd, component :: rest, call :: calls =>
    call.directory = fd ∧ call.component = component ∧ call.flags = flags rest.isEmpty ∧
      match call.opened with
      | .ok next => Follows flags next rest calls
      | .error _ => calls = []

private theorem follows_nil {flags : Bool → OpenFlags} {fd : Nat} {names : List Bytes} : Follows flags fd names [] := by
  unfold Follows
  trivial

/-- The descriptor that the calls end with. -/
def lastOpened (fd : Nat) (calls : List Openat) : Except Errno Nat :=
  (calls.getLast?.map (·.opened)).getD (.ok fd)

/-- The `openat` calls since the log was `old`. -/
def Since (old : List (KernelCall × Answer)) (calls : List Openat) (s : Kernel) : Prop :=
  ∃ rest, s.log = old ++ rest ∧ openats rest = calls

/-- One `openat` for the component, which gives what is returned. -/
def OpensOne (flags : Bool → OpenFlags) (openOne : Nat → Bytes → Bool → Walk Nat) : Prop :=
  ∀ fd component final old calls,
    Ends (Since old calls) (openOne fd component final)
      (fun next => Since old (calls ++ [⟨fd, component, flags final, .ok next⟩]))
      (fun _ s => ∃ opened, Since old (calls ++ [⟨fd, component, flags final, opened⟩]) s)
      (fun _ => False)

section

variable {E : PolicyError → Kernel → Prop} {old : List (KernelCall × Answer)} {calls : List Openat}

private theorem ends_openat (fd : Nat) (component : Bytes) (flags : OpenFlags) :
    Ends (Since old calls) (ask (.openat fd component flags))
      (fun answer => Since old (calls ++ [⟨fd, component, flags, answer.opened⟩])) E (fun _ => False) := by
  rintro s ⟨rest, hlog, hcalls⟩
  refine ⟨rest ++ [(.openat fd component flags, s.answer s.log.length)], ?_, ?_⟩
  · rw [← List.append_assoc, ← hlog]
  · rw [openats, List.filterMap_append, ← hcalls]
    rfl

private theorem ends_stat {call : KernelCall}
    (hc : (∃ fd, call = .fstat fd) ∨ ∃ fd component, call = .fstatat fd component) :
    Ends (Since old calls) (ask call) (fun _ => Since old calls) E (fun _ => False) := by
  rintro s ⟨rest, hlog, hcalls⟩
  refine ⟨rest ++ [(call, s.answer s.log.length)], ?_, ?_⟩
  · rw [← List.append_assoc, ← hlog]
  · rw [openats, List.filterMap_append, ← hcalls]
    rcases hc with ⟨fd, rfl⟩ | ⟨fd, component, rfl⟩
    · exact List.append_nil _
    · exact List.append_nil _

end

private theorem opensOne_openComponent : OpensOne (fun final => walkFlags (!final)) openComponent := by
  intro fd component final old calls
  have hraise : ∀ e opened, Ends
      (Since old (calls ++ [⟨fd, component, walkFlags (!final), opened⟩]))
      (raise e : Walk Nat)
      (fun next => Since old (calls ++ [⟨fd, component, walkFlags (!final), .ok next⟩]))
      (fun _ s => ∃ opened, Since old (calls ++ [⟨fd, component, walkFlags (!final), opened⟩]) s)
      (fun _ => False) := fun e opened => .raise fun s hs => ⟨opened, hs⟩
  refine .bind (ends_openat _ _ _) fun next => ?_
  cases next.opened with
  | error number =>
    dsimp only
    split
    · refine .bind (ends_stat (.inr ⟨_, _, rfl⟩)) fun link => ?_
      split
      · exact hraise _ _
      · exact hraise _ _
    · exact hraise _ _
  | ok fd' =>
    refine .bind (ends_stat (.inl ⟨_, rfl⟩)) fun metadata => ?_
    cases metadata.kind with
    | none => exact hraise _ _
    | some kind =>
      dsimp only
      split
      · exact hraise _ _
      split
      · exact hraise _ _
      · exact .pure fun s hs => hs

private theorem opensOne_openRootComponent : OpensOne (fun _ => walkFlags true) openRootComponent := by
  intro fd component final old calls
  refine .bind (ends_openat _ _ _) fun next => ?_
  cases next.opened with
  | error number => exact .raise fun s hs => ⟨_, hs⟩
  | ok fd' =>
    refine .bind (ends_stat (.inl ⟨_, rfl⟩)) fun metadata => ?_
    dsimp only
    split
    · exact .pure fun s hs => hs
    · exact .raise fun s hs => ⟨_, hs⟩

/-- A walk from `start` on opens the components from there on, all of them if it returns. -/
private theorem ends_walk {flags : Bool → OpenFlags} {openOne : Nat → Bytes → Bool → Walk Nat}
    (hone : OpensOne flags openOne) (exhausted : PolicyError) (path : Bytes) (fd start : Nat)
    (old : List (KernelCall × Answer)) (calls : List Openat) :
    Ends (Since old calls) (walk openOne exhausted path fd start)
      (fun result s => ∃ more, Since old (calls ++ more) s ∧ Follows flags fd (components (path.drop start)) more ∧
        more.length = (components (path.drop start)).length ∧ lastOpened fd more = .ok result)
      (fun _ s => ∃ more, Since old (calls ++ more) s ∧ Follows flags fd (components (path.drop start)) more)
      (fun _ => False) := by
  induction hn : path.length - start using Nat.strongRecOn generalizing fd start calls with
  | _ n ih =>
    rw [walk]
    split
    · split
      · rename_i hs
        rw [components_of_noSlash hs]
        refine (hone fd _ true old calls).mono (fun _ => id) ?_ ?_ fun _ => id
        · intro result s hr
          exact ⟨_, hr, ⟨rfl, rfl, rfl, trivial⟩, rfl, rfl⟩
        · rintro e s ⟨opened, hr⟩
          refine ⟨_, hr, rfl, rfl, rfl, ?_⟩
          cases opened with
          | error => rfl
          | ok => exact follows_nil
      · rename_i slash hs
        obtain ⟨hle, hlt⟩ := le_of_findSlash hs
        rw [components_of_slash hs]
        have hrest : (components (path.drop (slash + 1))).isEmpty = false :=
          List.isEmpty_eq_false_iff.2 (List.splitOn_ne_nil _ _)
        refine .bind ((hone fd _ false old calls).mono (fun _ => id) (fun _ _ => id) ?_ fun _ => id) fun next => ?_
        · rintro e s ⟨opened, hr⟩
          refine ⟨_, hr, rfl, rfl, by rw [hrest], ?_⟩
          cases opened with
          | error => rfl
          | ok => exact follows_nil
        · refine (ih (path.length - (slash + 1)) (by omega) next (slash + 1) _ rfl).mono (fun _ => id) ?_ ?_ fun _ => id
          · rintro result s ⟨more, hr, hf, hl, hlast⟩
            refine ⟨_ :: more, by rwa [List.append_assoc] at hr, ⟨rfl, rfl, by rw [hrest], hf⟩, ?_, ?_⟩
            · rw [List.length_cons, List.length_cons, hl]
            · cases more with
              | nil => exact hlast
              | cons call more => exact hlast
          · rintro e s ⟨more, hr, hf⟩
            exact ⟨_ :: more, by rwa [List.append_assoc] at hr, rfl, rfl, by rw [hrest], hf⟩
    · exact .raise fun s hs => ⟨[], by rwa [List.append_nil], follows_nil⟩

/-! ### The main result -/

/-- What a walk has done: its first call gives the descriptor that it starts on, its `openat` calls follow the names
from there, and if it returns a descriptor, it is that of the last of all names. -/
def Walked (first : KernelCall) (flags : Bool → OpenFlags) (names : List Bytes)
    (result : Ending PolicyError Nat × Kernel) : Prop :=
  (∃ answer rest, result.2.log = (first, answer) :: rest ∧
    match answer.opened with
    | .ok fd => Follows flags fd names (openats rest) ∧ ∀ opened, result.1 = .returned opened →
        (openats rest).length = names.length ∧ lastOpened fd (openats rest) = .ok opened
    | .error _ => openats rest = [] ∧ ∀ opened, result.1 ≠ .returned opened) ∧
  result.1 ≠ .suspended

/-- The run of a walk after its first call. -/
private theorem walked_of_ends {first : KernelCall} {flags : Bool → OpenFlags} {names : List Bytes}
    {answers : Nat → Answer} {continue' : Answer → Walk Nat}
    (hok : ∀ fd, (answers 0).opened = .ok fd → Ends (Since [(first, answers 0)] []) (continue' (answers 0))
      (fun result s => ∃ more, Since [(first, answers 0)] more s ∧ Follows flags fd names more ∧
        more.length = names.length ∧ lastOpened fd more = .ok result)
      (fun _ s => ∃ more, Since [(first, answers 0)] more s ∧ Follows flags fd names more) (fun _ => False))
    (herror : ∀ number, (answers 0).opened = .error number → ∃ e, continue' (answers 0) = raise e) :
    Walked first flags names ((ask first >>= continue') ⟨answers, []⟩) := by
  have hbind : (ask first >>= continue') ⟨answers, []⟩ = continue' (answers 0) ⟨answers, [(first, answers 0)]⟩ := rfl
  rw [hbind]
  cases ho : (answers 0).opened with
  | error number =>
    obtain ⟨e, he⟩ := herror number ho
    rw [he, raise_apply]
    refine ⟨⟨answers 0, [], rfl, ?_⟩, fun h => by cases h⟩
    rw [ho]
    exact ⟨rfl, fun opened h => by cases h⟩
  | ok fd =>
    have hrun := hok fd ho ⟨answers, [(first, answers 0)]⟩ ⟨[], rfl, rfl⟩
    generalize continue' (answers 0) ⟨answers, [(first, answers 0)]⟩ = result at hrun ⊢
    obtain ⟨ending, s⟩ := result
    cases ending with
    | returned opened =>
      obtain ⟨more, ⟨rest, hlog, rfl⟩, hf, hl, hlast⟩ := hrun
      refine ⟨⟨answers 0, rest, hlog, ?_⟩, fun h => by cases h⟩
      rw [ho]
      refine ⟨hf, fun opened' h => ?_⟩
      obtain rfl : opened = opened' := by injection h
      exact ⟨hl, hlast⟩
    | raised e =>
      obtain ⟨more, ⟨rest, hlog, rfl⟩, hf⟩ := hrun
      refine ⟨⟨answers 0, rest, hlog, ?_⟩, fun h => by cases h⟩
      rw [ho]
      exact ⟨hf, fun opened' h => by cases h⟩
    | suspended => exact hrun.elim

theorem walked_openLegacyPath (path : Bytes) (rootFd : Nat) (answers : Nat → Answer) :
    Walked (.duplicate rootFd) (fun final => walkFlags (!final)) (components path)
      (openLegacyPath rootFd path ⟨answers, []⟩) := by
  refine walked_of_ends (fun fd ho => ?_) fun number ho => ?_
  · rw [ho]
    simpa only [List.drop_zero, List.nil_append] using
      ends_walk opensOne_openComponent _ path fd 0 [(.duplicate rootFd, answers 0)] []
  · rw [ho]
    exact ⟨_, rfl⟩

theorem walked_openRootLegacy (path : Bytes) (answers : Nat → Answer) :
    Walked (.open (bytes "/") (walkFlags true)) (fun _ => walkFlags true) (rootComponents path)
      (openRootLegacy path ⟨answers, []⟩) := by
  have hslash : bytes "/" = [kSlash] := by decide
  refine walked_of_ends (fun fd ho => ?_) fun number ho => ?_
  · rw [ho]
    dsimp only
    rw [hslash]
    by_cases hroot : path = [kSlash]
    · rw [if_pos hroot, rootComponents, if_pos hroot]
      exact .pure fun s hs => ⟨[], hs, follows_nil, rfl, rfl⟩
    · rw [if_neg hroot, rootComponents, if_neg hroot]
      exact ends_walk opensOne_openRootComponent _ path fd 1 _ []
  · rw [ho]
    exact ⟨_, rfl⟩

/-- Validation accepts exactly the bounded paths of proper names, and the walk of an accepted path opens these names:
one `openat` for each, in order, each on the descriptor that was returned for the one before it, beginning with the
root, every one with `O_NOFOLLOW` and every one but the last with `O_DIRECTORY` (also the last for a root). -/
theorem walk_agrees (path : Bytes) (limit : Nat) :
    (validateRelativePath path limit = none ↔
      path ≠ [] ∧ path.length ≤ limit ∧ 0 ∉ path ∧ ∀ c ∈ components path, IsProper c) ∧
    (validateRelativePath path limit = none →
      (∀ c ∈ components path, IsName c) ∧ resolve [] (components path) = some (components path) ∧
      ∀ rootFd answers, Walked (.duplicate rootFd) (fun final => walkFlags (!final)) (components path)
        (openLegacyPath rootFd path ⟨answers, []⟩)) ∧
    (validRootPath path limit = true ↔
      path.head? = some kSlash ∧ path.length ≤ limit ∧ 0 ∉ path ∧ ∀ c ∈ rootComponents path, IsProper c) ∧
    (validRootPath path limit = true →
      (∀ c ∈ rootComponents path, IsName c) ∧ resolve [] (rootComponents path) = some (rootComponents path) ∧
      ∀ answers, Walked (.open (bytes "/") (walkFlags true)) (fun _ => walkFlags true) (rootComponents path)
        (openRootLegacy path ⟨answers, []⟩)) := by
  refine ⟨validateRelativePath_eq_none, fun h => ?_, validRootPath_eq_true, fun h => ?_⟩
  · obtain ⟨-, -, hzero, hproper⟩ := validateRelativePath_eq_none.1 h
    exact ⟨fun c hc => isName_of_mem_components hzero hc, resolve_proper hproper [],
      fun rootFd answers => walked_openLegacyPath path rootFd answers⟩
  · obtain ⟨-, -, hzero, hproper⟩ := validRootPath_eq_true.1 h
    exact ⟨fun c hc => isName_of_mem_rootComponents hzero hc, resolve_proper hproper [],
      fun answers => walked_openRootLegacy path answers⟩

/-- Two names beneath a root, over a kernel that answers each call with a directory. -/
theorem walk_agrees_twoNames :
    validateRelativePath (bytes "logs/app") 4096 = none ∧
    Walked (.duplicate 3) (fun final => walkFlags (!final)) [bytes "logs", bytes "app"]
      (openLegacyPath 3 (bytes "logs/app") ⟨fun n => ⟨.ok (n + 4), some .directory⟩, []⟩) ∧
    validRootPath (bytes "/srv") 4096 = true ∧
    Walked (.open (bytes "/") (walkFlags true)) (fun _ => walkFlags true) [bytes "srv"]
      (openRootLegacy (bytes "/srv") ⟨fun n => ⟨.ok (n + 4), some .directory⟩, []⟩) := by
  have hnames : components (bytes "logs/app") = [bytes "logs", bytes "app"] := by decide +kernel
  have hroot : rootComponents (bytes "/srv") = [bytes "srv"] := by decide +kernel
  obtain ⟨hiff, hwalk, -, -⟩ := walk_agrees (bytes "logs/app") 4096
  obtain ⟨-, -, hiff', hwalk'⟩ := walk_agrees (bytes "/srv") 4096
  rw [hnames] at hiff hwalk
  rw [hroot] at hiff' hwalk'
  have hvalid := hiff.2 (by unfold IsProper; decide +kernel)
  have hvalid' := hiff'.2 (by unfold IsProper; decide +kernel)
  exact ⟨hvalid, (hwalk hvalid).2.2 3 _, hvalid', (hwalk' hvalid').2.2 _⟩

end FilePolicy

end NativeMcp
