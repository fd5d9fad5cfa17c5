import NativeMcp.Tools.ProcessObservation

/-!
# A result is made of texts of one process

Start times of one PID grow along a history (`start_le`), and a stop stays.  Each call keeps that the texts read so far
are in the order of their processes and older than whatever is alive (`Orderly`); a text of the pinned process at both
ends then leaves no room for another process in between (`pinned_of_ends`).

A stop that any check notices ends the observation with its error, also one that is first noticed while the optional text is
read: its error becomes a value there, but the next thing after it is a check (`confirmTarget_stopping`).
-/

namespace NativeMcp

namespace ProcessObservation

open Program ProcessMemory ProcessParsing

/-! ### Along a history -/

/-- The processes of a PID that are seen later have later start times. -/
private theorem start_le_and_newest {w w' : World} (h : world.system.Later w w') {pid s : Nat}
    (hs : (w.life pid).alive = some s) :
    s ≤ (w'.life pid).newest ∧ ∀ s', (w'.life pid).alive = some s' → s ≤ s' := by
  induction h with
  | refl =>
    refine ⟨(w.life pid).alive_le s hs, fun s' hs' => ?_⟩
    rw [hs] at hs'
    exact Nat.le_of_eq (Option.some.inj hs')
  | tail _ h ih =>
    obtain ⟨hn, ha⟩ := ih
    obtain ⟨a, h⟩ := h
    cases a with
    | exit p =>
      rw [← Option.some.inj h]
      by_cases hp : pid = p
      · subst hp
        simp [hn]
      · simp only [Function.update_of_ne hp]
        exact ⟨hn, ha⟩
    | spawn p startTime =>
      simp only [world, World.step] at h
      split at h
      · rename_i hfree
        rw [← Option.some.inj h]
        by_cases hp : pid = p
        · subst hp
          simp only [Function.update_self, Option.some.injEq]
          have hle : s ≤ startTime := by omega
          exact ⟨hle, fun s' hs' => hs' ▸ hle⟩
        · simp only [Function.update_of_ne hp]
          exact ⟨hn, ha⟩
      · cases h
    | cancel =>
      rw [← Option.some.inj h]
      exact ⟨hn, ha⟩
    | expire =>
      rw [← Option.some.inj h]
      exact ⟨hn, ha⟩

theorem start_le {w w' : World} (h : world.system.Later w w') {pid s s' : Nat} (hs : (w.life pid).alive = some s)
    (hs' : (w'.life pid).alive = some s') : s ≤ s' := (start_le_and_newest h hs).2 s' hs'

/-- The operation has been told to stop. -/
def World.Stopped (w : World) : Prop := OperationContext.operation.stopReason w ≠ .none

theorem World.stopped_iff {w : World} : w.Stopped ↔ w.cancelled = true ∨ w.expired = true := by
  unfold World.Stopped OperationContext.stopReason
  cases w.cancelled <;> cases w.expired <;> simp

/-- A stop stays. -/
theorem World.Stopped.later {w w' : World} (hs : w.Stopped) (h : world.system.Later w w') : w'.Stopped := by
  rw [World.stopped_iff] at *
  induction h with
  | refl => exact hs
  | tail _ h ih =>
    obtain ⟨a, h⟩ := h
    cases a with
    | exit p =>
      rw [← Option.some.inj h]
      exact ih
    | spawn p startTime =>
      simp only [world, World.step] at h
      split at h
      · rw [← Option.some.inj h]
        exact ih
      · cases h
    | cancel =>
      rw [← Option.some.inj h]
      exact .inl rfl
    | expire =>
      rw [← Option.some.inj h]
      exact .inr rfl

theorem History.tail {m : Moment} {moments : List Moment} (h : History (m :: moments)) : History moments :=
  ⟨fun x hx => h.genuine x (List.mem_cons_of_mem _ hx), (List.pairwise_cons.1 h.ordered).2⟩

theorem History.later {m : Moment} {moments : List Moment} (h : History (m :: moments)) {m' : Moment}
    (hm : m' ∈ moments) : world.system.Later m.world m'.world := (List.pairwise_cons.1 h.ordered).1 m' hm

theorem History.suffix {moments rest : List Moment} (h : History moments) (hr : rest <:+ moments) : History rest :=
  ⟨fun m hm => h.genuine m (hr.subset hm), h.ordered.sublist hr.sublist⟩

/-! ### The log -/

/-- The texts that were read, in order. -/
def texts (log : List Event) : List ProcText :=
  log.filterMap fun
    | .text t => some t
    | _ => none

/-- The log without the checks. -/
def record (log : List Event) : List Event :=
  log.filter fun
    | .check _ => false
    | _ => true

/-- Some check has found a reason to stop. -/
def Noticed (log : List Event) : Prop := ∃ reason, reason ≠ .none ∧ .check reason ∈ log

@[simp] theorem texts_append_check (log : List Event) (reason : OperationStopReason) :
    texts (log ++ [.check reason]) = texts log := by
  simp [texts]

@[simp] theorem texts_append_user (log : List Event) (uid : Nat) : texts (log ++ [.user uid]) = texts log := by
  simp [texts]

@[simp] theorem texts_append_text (log : List Event) (t : ProcText) : texts (log ++ [.text t]) = texts log ++ [t] := by
  simp [texts]

@[simp] theorem record_append_check (log : List Event) (reason : OperationStopReason) :
    record (log ++ [.check reason]) = record log := by
  simp [record]

@[simp] theorem record_append_user (log : List Event) (uid : Nat) :
    record (log ++ [.user uid]) = record log ++ [.user uid] := by
  simp [record]

@[simp] theorem record_append_text (log : List Event) (t : ProcText) :
    record (log ++ [.text t]) = record log ++ [.text t] := by
  simp [record]

/-- The checks are no texts. -/
theorem texts_record (log : List Event) : texts (record log) = texts log := by
  induction log with
  | nil => rfl
  | cons e log ih =>
    cases e with
    | check reason => simpa [texts, record] using ih
    | text t => simpa [texts, record] using ih
    | user uid => simpa [texts, record] using ih

@[simp] theorem noticed_append_check (log : List Event) (reason : OperationStopReason) :
    Noticed (log ++ [.check reason]) ↔ Noticed log ∨ reason ≠ .none := by
  simp only [Noticed, List.mem_append, List.mem_singleton, Event.check.injEq]
  constructor
  · rintro ⟨r, hr, h | rfl⟩
    · exact .inl ⟨r, hr, h⟩
    · exact .inr hr
  · rintro (⟨r, hr, h⟩ | h)
    · exact ⟨r, hr, .inl h⟩
    · exact ⟨reason, h, .inr rfl⟩

@[simp] theorem noticed_append_user (log : List Event) (uid : Nat) : Noticed (log ++ [.user uid]) ↔ Noticed log := by
  simp [Noticed]

@[simp] theorem noticed_append_text (log : List Event) (t : ProcText) : Noticed (log ++ [.text t]) ↔ Noticed log := by
  simp [Noticed]

/-- What every call keeps: the texts are in the order of their processes, none of them is of a process younger than one
that is still seen, a `stat` text is of the process whose start time it shows, and a noticed stop stays. -/
structure Orderly (st : Observing) : Prop where
  history : History st.moments
  ordered : (texts st.log).Pairwise fun t t' => t.pid = t'.pid → t.process ≤ t'.process
  past : ∀ t ∈ texts st.log, ∀ m ∈ st.moments, ∀ s, (m.world.life t.pid).alive = some s → t.process ≤ s
  stat : ∀ t ∈ texts st.log, t.file = .stat →
    ∀ i, parseStatIdentity t.content = some i → i.startTimeTicks = t.process
  stop : Noticed st.log → ∀ m ∈ st.moments, m.world.Stopped

theorem Orderly.start {moments : List Moment} (h : History moments) : Orderly ⟨moments, []⟩ where
  history := h
  ordered := List.Pairwise.nil
  past := by simp [texts]
  stat := by simp [texts]
  stop := by simp [Noticed]

theorem Orderly.next {m : Moment} {moments : List Moment} {log : List Event} (h : Orderly ⟨m :: moments, log⟩) :
    Orderly ⟨moments, log⟩ where
  history := h.history.tail
  ordered := h.ordered
  past t ht m' hm := h.past t ht m' (List.mem_cons_of_mem _ hm)
  stat := h.stat
  stop hn m' hm := h.stop hn m' (List.mem_cons_of_mem _ hm)

theorem Orderly.check {m : Moment} {moments : List Moment} {log : List Event} (h : Orderly ⟨m :: moments, log⟩)
    (context : OperationContext) : Orderly ⟨moments, log ++ [.check (context.stopReason m.world)]⟩ where
  history := h.history.tail
  ordered := by simpa using h.ordered
  past t ht m' hm := h.past t (by simpa using ht) m' (List.mem_cons_of_mem _ hm)
  stat t ht := h.stat t (by simpa using ht)
  stop hn m' hm := by
    rcases (noticed_append_check _ _).1 hn with hn | hn
    · exact h.stop hn m' (List.mem_cons_of_mem _ hm)
    · cases context with
      | unlimited => exact absurd rfl hn
      | operation => exact World.Stopped.later hn (h.history.later hm)

theorem Orderly.user {st : Observing} (h : Orderly st) (uid : Nat) :
    Orderly { st with log := st.log ++ [.user uid] } where
  history := h.history
  ordered := by simpa using h.ordered
  past t ht := h.past t (by simpa using ht)
  stat t ht := h.stat t (by simpa using ht)
  stop hn := h.stop (by simpa using hn)

/-- A text that is not older than those before it, and not younger than what is still seen. -/
structure Fits (L : List ProcText) (moments : List Moment) (t : ProcText) : Prop where
  newest : ∀ t' ∈ L, t'.pid = t.pid → t'.process ≤ t.process
  past : ∀ m ∈ moments, ∀ s, (m.world.life t.pid).alive = some s → t.process ≤ s
  stat : t.file = .stat → ∀ i, parseStatIdentity t.content = some i → i.startTimeTicks = t.process

theorem Orderly.text {st : Observing} (h : Orderly st) {t : ProcText} (ht : Fits (texts st.log) st.moments t) :
    Orderly { st with log := st.log ++ [.text t] } where
  history := h.history
  ordered := by
    rw [texts_append_text, List.pairwise_append]
    refine ⟨h.ordered, List.pairwise_singleton _ _, fun t' ht' u hu => ?_⟩
    rw [List.mem_singleton.1 hu]
    exact ht.newest t' ht'
  past t' ht' := by
    rw [texts_append_text] at ht'
    rcases List.mem_append.1 ht' with ht' | ht'
    · exact h.past t' ht'
    · rw [List.mem_singleton.1 ht']
      exact ht.past
  stat t' ht' := by
    rw [texts_append_text] at ht'
    rcases List.mem_append.1 ht' with ht' | ht'
    · exact h.stat t' ht'
    · rw [List.mem_singleton.1 ht']
      exact ht.stat
  stop hn := h.stop (by simpa using hn)

/-- What a read takes from the process that is alive. -/
theorem Fits.of_alive {m : Moment} {moments : List Moment} {log : List Event} (h : Orderly ⟨m :: moments, log⟩)
    {pid process : Nat} (ha : (m.world.life pid).alive = some process) (file : ProcFile) :
    Fits (texts log) moments ⟨pid, file, process, m.text pid file⟩ where
  newest t ht hp := by
    have hp : t.pid = pid := hp
    rw [← hp] at ha
    exact h.past t ht m (List.mem_cons_self ..) process ha
  past m' hm s hs := start_le (h.history.later hm) ha hs
  stat hf i hi := by
    cases hf
    exact h.history.genuine m (List.mem_cons_self ..) pid process ha i hi

theorem Fits.later {L : List ProcText} {t : ProcText} {m : Moment} {moments : List Moment}
    (h : Fits L (m :: moments) t) : Fits L moments t :=
  ⟨h.newest, fun m' hm => h.past m' (List.mem_cons_of_mem _ hm), h.stat⟩

/-! ### What each call does -/

/-- This has been recorded, and no stop was noticed. -/
structure At (L : List Event) (st : Observing) : Prop where
  orderly : Orderly st
  running : ¬ Noticed st.log
  record_eq : record st.log = L

/-- This has been recorded, and a stop was noticed. -/
structure Stopping (L : List Event) (st : Observing) : Prop where
  orderly : Orderly st
  noticed : Noticed st.log
  record_eq : record st.log = L

def IsStopError (e : ProcessMemoryError) : Prop := e.code = .cancelled ∨ e.code = .deadlineExceeded

/-- A call has failed: with the error of a stop if one was noticed. -/
def Failed (L : List Event) (e : ProcessMemoryError) (st : Observing) : Prop :=
  At L st ∨ Stopping L st ∧ IsStopError e

/-- The moment of the next call has not come. -/
def Waiting (st : Observing) : Prop := st.moments = []

theorem operationError_eq_none {reason : OperationStopReason} : operationError reason = none ↔ reason = .none := by
  cases reason <;> simp [operationError]

theorem isStopError {reason : OperationStopReason} {e : ProcessMemoryError} (h : operationError reason = some e) :
    IsStopError e := by
  cases reason with
  | none => cases h
  | cancelled =>
    cases h
    exact .inl rfl
  | deadlineExceeded =>
    cases h
    exact .inr rfl

section Rules

variable {α : Type} {P : Observing → Prop} {Q : α → Observing → Prop} {E : ProcessMemoryError → Observing → Prop}
  {L : List Event}

/-- A call is made at the next moment, if it has come. -/
theorem Ends.next {f : Moment → Call α}
    (h : ∀ m, Ends (fun st => P ⟨m :: st.moments, st.log⟩) (f m) Q E Waiting) : Ends P (next >>= f) Q E Waiting := by
  intro st hst
  obtain ⟨moments, log⟩ := st
  cases moments with
  | nil => exact rfl
  | cons m moments => exact h m ⟨moments, log⟩ hst

theorem Ends.next_at {f : Moment → Call α} (h : ∀ m, Ends (At L) (f m) Q E Waiting) :
    Ends (At L) (ProcessObservation.next >>= f) Q E Waiting :=
  Ends.next fun m => (h m).pre fun _ hst => ⟨hst.orderly.next, hst.running, hst.record_eq⟩

/-- A check that finds no reason to stop; `F` is about the moments to come. -/
theorem checkStop_frame (context : OperationContext) (F : List Moment → Prop) :
    Ends (fun st => At L st ∧ F st.moments) (checkStop context) (fun _ st => At L st ∧ ∃ m, F (m :: st.moments))
      (Failed L) Waiting := by
  refine Ends.next fun m => ?_
  cases hr : operationError (context.stopReason m.world) with
  | none =>
    have hnone := operationError_eq_none.1 hr
    refine Ends.bind_modify (fun st => At L st ∧ ∃ m, F (m :: st.moments)) (Ends.pure fun _ => id)
      fun st hst => ?_
    refine ⟨⟨hst.1.orderly.check context, ?_, ?_⟩, m, hst.2⟩
    · rw [noticed_append_check]
      exact not_or.2 ⟨hst.1.running, fun h => h hnone⟩
    · rw [record_append_check]
      exact hst.1.record_eq
  | some e =>
    have hsome : context.stopReason m.world ≠ .none := by
      intro h
      rw [operationError_eq_none.2 h] at hr
      cases hr
    refine Ends.bind_modify (Stopping L) (Ends.raise fun st hst => .inr ⟨hst, isStopError hr⟩) fun st hst => ?_
    refine ⟨hst.1.orderly.check context, (noticed_append_check _ _).2 (.inr hsome), ?_⟩
    rw [record_append_check]
    exact hst.1.record_eq

theorem checkStop_ends (context : OperationContext) :
    Ends (At L) (checkStop context) (fun _ => At L) (Failed L) Waiting :=
  (checkStop_frame context fun _ => True).mono (fun _ hst => ⟨hst, trivial⟩) (fun _ _ hst => hst.1) (fun _ _ => id)
    fun _ => id

/-- Once a stop was noticed, the next check ends the observation. -/
theorem checkStop_stopping :
    Ends (Stopping L) (checkStop .operation) (fun _ _ => False) (Failed L) Waiting := by
  refine Ends.next fun m => ?_
  cases hr : operationError (OperationContext.operation.stopReason m.world) with
  | none =>
    refine Ends.bind_modify (fun _ => False) (fun _ h => h.elim) fun st hst => ?_
    exact hst.orderly.stop hst.noticed m (List.mem_cons_self ..) (operationError_eq_none.1 hr)
  | some e =>
    refine Ends.bind_modify (Stopping L) (Ends.raise fun st hst => .inr ⟨hst, isStopError hr⟩) fun st hst => ?_
    refine ⟨hst.orderly.check _, (noticed_append_check _ _).2 (.inl hst.noticed), ?_⟩
    rw [record_append_check]
    exact hst.record_eq

theorem openProc_ends (file : ProcFile) (optionalFile : Bool) :
    Ends (At L) (openProc file optionalFile) (fun _ => At L) (fun _ => At L) Waiting := by
  refine Ends.next_at fun m => ?_
  cases m.opens with
  | none => exact Ends.pure fun _ => id
  | some failure =>
    dsimp only
    split
    · exact Ends.raise fun _ => id
    · exact Ends.raise fun _ => id

/-- What the loop of `read_proc_text` has: nothing, or the first bytes of a text. -/
def Snapshot (L : List Event) (pid : Nat) (file : ProcFile) (total : Nat) (moments : List Moment) :
    Option ProcText → Prop
  | none => total = 0
  | some t => t.pid = pid ∧ t.file = file ∧ total ≤ t.content.length ∧ Fits (texts L) moments t

/-- The text that a read which returns goes on with. -/
private theorem snapshot_getD {m : Moment} {st : Observing} (h : At L ⟨m :: st.moments, st.log⟩) {m₀ : Moment}
    {pid process total : Nat} {file : ProcFile} {snapshot : Option ProcText}
    (hs : Snapshot L pid file total (m₀ :: m :: st.moments) snapshot)
    (ha : (m.world.life pid).alive = some process) :
    Snapshot L pid file total st.moments (some (snapshot.getD ⟨pid, file, process, m.text pid file⟩)) := by
  cases snapshot with
  | none =>
    have hf := Fits.of_alive h.orderly ha file
    rw [← texts_record, h.record_eq] at hf
    exact ⟨rfl, rfl, by rw [show total = 0 from hs]; exact Nat.zero_le _, hf⟩
  | some t => exact ⟨hs.1, hs.2.1, hs.2.2.1, hs.2.2.2.later.later⟩

theorem readLoop_ends (context : OperationContext) (pid : Nat) (file : ProcFile) (limit fuel : Nat)
    (snapshot : Option ProcText) (total : Nat) :
    Ends (fun st => At L st ∧ (st.moments.length < fuel ∧ Snapshot L pid file total st.moments snapshot))
      (readLoop context pid file limit fuel snapshot total)
      (fun content st => ∃ process, At (L ++ [.text ⟨pid, file, process, content⟩]) st) (Failed L) Waiting := by
  induction fuel generalizing snapshot total with
  | zero => exact fun st hst => absurd hst.2.1 (Nat.not_lt_zero _)
  | succ fuel ih =>
    rw [readLoop]
    split
    · exact Ends.raise fun st hst => .inl hst.1
    rename_i hlimit
    refine Ends.bind (checkStop_frame context fun moments =>
      moments.length < fuel + 1 ∧ Snapshot L pid file total moments snapshot) fun _ => Ends.next fun m => ?_
    split
    · -- interrupted: the same text, one round later
      refine (ih snapshot total).pre ?_
      rintro st ⟨hat, m₀, hlen, hs⟩
      simp only [List.length_cons] at hlen
      refine ⟨⟨hat.orderly.next, hat.running, hat.record_eq⟩, by omega, ?_⟩
      cases snapshot with
      | none => exact hs
      | some t => exact ⟨hs.1, hs.2.1, hs.2.2.1, hs.2.2.2.later.later⟩
    · rename_i short process _ ha
      dsimp only
      split
      · -- the end of the text
        rename_i hcount
        refine Ends.bind_modify _ (Ends.pure fun _ => id) ?_
        rintro st ⟨hat, m₀, hlen, hs⟩
        have hsnap := snapshot_getD hat hs ha
        generalize snapshot.getD ⟨pid, file, process, m.text pid file⟩ = t at hsnap hcount ⊢
        obtain ⟨rfl, rfl, hle, hfit⟩ := hsnap
        have htake : t.content.take total = t.content := by
          rw [List.length_take, List.length_drop] at hcount
          exact List.take_of_length_le (by omega)
        rw [htake]
        have horderly := (hat.orderly.next).text (t := t) (by rw [← texts_record, hat.record_eq]; exact hfit)
        exact ⟨t.process, horderly, by simpa using hat.running, by simpa using hat.record_eq⟩
      · -- some bytes more
        rename_i hcount
        refine (ih _ _).pre ?_
        rintro st ⟨hat, m₀, hlen, hs⟩
        have hsnap := snapshot_getD hat hs ha
        simp only [List.length_cons] at hlen
        refine ⟨⟨hat.orderly.next, hat.running, hat.record_eq⟩, by omega, hsnap.1, hsnap.2.1, ?_, hsnap.2.2.2⟩
        have hle := hsnap.2.2.1
        rw [List.length_take, List.length_drop]
        omega
    · refine Ends.raise ?_
      rintro st ⟨hat, _⟩
      exact .inl ⟨hat.orderly.next, hat.running, hat.record_eq⟩

/-- One text of one process. -/
theorem readProcText_ends (context : OperationContext) (pid : Nat) (file : ProcFile) (limit : Nat)
    (optionalFile : Bool) :
    Ends (At L) (readProcText context pid file limit optionalFile)
      (fun content st => ∃ process, At (L ++ [.text ⟨pid, file, process, content⟩]) st) (Failed L) Waiting := by
  refine Ends.bind (checkStop_ends context) fun _ => ?_
  refine Ends.bind ((openProc_ends file optionalFile).mono (fun _ => id) (fun _ _ => id) (fun _ _ => .inl) fun _ => id)
    fun _ st hst => ?_
  exact readLoop_ends context pid file limit (st.moments.length + 1) none 0 st ⟨hst, Nat.lt_succ_self _, rfl⟩

theorem readProcText_stopping (pid : Nat) (file : ProcFile) (limit : Nat) (optionalFile : Bool)
    {R : Bytes → Observing → Prop} :
    Ends (Stopping L) (readProcText .operation pid file limit optionalFile) R (Failed L) Waiting :=
  Ends.bind checkStop_stopping fun _ _ h => h.elim

/-- The start time of an identity is that of the process whose text it was read from. -/
theorem observeIdentity_ends (context : OperationContext) (limits : ProcessPolicyLimits) (pid : Nat) :
    Ends (At L) (observeIdentity context limits pid)
      (fun identity st => ∃ content, readIdentity (.ok content) = .ok identity ∧
        At (L ++ [.text ⟨pid, .stat, identity.startTimeTicks, content⟩]) st)
      (fun e st => ∃ L', L <+: L' ∧ Failed L' e st) Waiting := by
  refine Ends.bind ((readProcText_ends context pid .stat limits.maxStatBytes false).mono (fun _ => id) (fun _ _ => id)
    (fun e st h => ⟨L, List.prefix_refl L, h⟩) fun _ => id) fun content => Ends.of_exists fun process => ?_
  refine Ends.lift ?_ ?_
  · intro identity hi st hst
    have hparse : parseStatIdentity content = some identity := by
      cases h : parseStatIdentity content with
      | none => simp [readIdentity, orError, Except.bind, h] at hi
      | some i => simpa [readIdentity, orError, Except.bind, h] using hi
    have heq : identity.startTimeTicks = process :=
      hst.orderly.stat ⟨pid, .stat, process, content⟩ (by rw [← texts_record, hst.record_eq]; simp) rfl
        identity hparse
    rw [heq]
    exact ⟨content, hi, hst⟩
  · intro e _ st hst
    exact ⟨_, List.prefix_append L _, .inl hst⟩

theorem observeIdentity_stopping (limits : ProcessPolicyLimits) (pid : Nat) {R : StatIdentity → Observing → Prop} :
    Ends (Stopping L) (observeIdentity .operation limits pid) R (Failed L) Waiting :=
  Ends.bind (readProcText_stopping pid .stat limits.maxStatBytes false (R := fun _ _ => False)) fun _ _ h => h.elim

theorem failIfExited_ends (hasPidfd : Bool) (message : String) :
    Ends (At L) (failIfExited hasPidfd message) (fun _ => At L) (fun _ => At L) Waiting := by
  cases hasPidfd with
  | false => exact Ends.pure fun _ => id
  | true => exact Ends.next_at fun m => Ends.lift (fun _ _ _ => id) fun _ _ _ => id

theorem effectiveUser_ends :
    Ends (At L) effectiveUser (fun uid => At (L ++ [.user uid])) (fun _ => At L) Waiting := by
  refine Ends.next_at fun m => Ends.bind_modify _ (Ends.pure fun _ => id) fun st hst => ?_
  exact ⟨hst.orderly.user _, by simpa using hst.running, by simpa using hst.record_eq⟩

end Rules

/-! ### The whole observation -/

/-- A text of the pinned process, if it was read. -/
def textOf (target : ProcessHandle) (file : ProcFile) : Outcome Bytes → List Event
  | .ok content => [.text ⟨target.pid, file, target.startTimeTicks, content⟩]
  | .error _ => []

/-- The record of an observation all of whose texts are of the pinned process. -/
def recordOf (target : ProcessHandle) (o : Observation) : List Event :=
  textOf target .stat o.statBefore ++ textOf target .status o.status ++ [.user o.effectiveUid] ++
    textOf target .statm o.statm ++ textOf target .smapsRollup o.smapsRollup ++ textOf target .stat o.statAfter

/-- The text `status` shows the user that `create` recorded, and the server has it too. -/
def ShowsUser (target : ProcessHandle) (o : Observation) : Prop :=
  ∃ text status, o.status = .ok text ∧ parseStatus text = some status ∧ status.effectiveUid = target.uid ∧
    o.effectiveUid = target.uid

/-- Two texts of the pinned process leave no room for another process in between. -/
private theorem pinned_of_ends {t₀ t₁ t : ProcText} {L : List ProcText}
    (h : (t₀ :: (L ++ [t₁])).Pairwise fun t t' => t.pid = t'.pid → t.process ≤ t'.process) (hp : t₀.pid = t₁.pid)
    (he : t₀.process = t₁.process) (ht : t ∈ L) (htp : t.pid = t₀.pid) : t.process = t₀.process := by
  rw [List.pairwise_cons, List.pairwise_append] at h
  obtain ⟨hfirst, -, -, hlast⟩ := h
  have h₀ := hfirst t (List.mem_append_left _ ht) htp.symm
  have h₁ := hlast t ht t₁ (List.mem_singleton_self _) (htp.trans hp)
  omega

/-- A run ends with the error of a stop if it has noticed one. -/
def Ended (e : ProcessMemoryError) (st : Observing) : Prop := Noticed st.log → IsStopError e

theorem At.ended {L : List Event} {st : Observing} (h : At L st) (e : ProcessMemoryError) : Ended e st :=
  fun hn => absurd hn h.running

theorem Failed.ended {L : List Event} {st : Observing} {e : ProcessMemoryError} (h : Failed L e st) : Ended e st := by
  rcases h with h | h
  · exact h.ended e
  · exact fun _ => h.2

private theorem of_failIf {condition : Bool} {code : ProcessMemoryErrorCode} {message : String} {u : Unit}
    (h : failIf condition code message = .ok u) : condition = false := by
  cases condition with
  | false => rfl
  | true => cases h

private theorem of_orError {α : Type} {value : Option α} {a : α} {code : ProcessMemoryErrorCode} {message : String}
    (h : orError value code message = .ok a) : value = some a := by
  cases value with
  | none => cases h
  | some b =>
    cases h
    rfl

/-- A stop that was noticed ends the observation here at the latest. -/
private theorem confirmTarget_stopping (limits : ProcessPolicyLimits) (target : ProcessHandle) (before : StatIdentity)
    {L : List Event} {R : Unit → Observing → Prop} :
    Ends (Stopping L) (confirmTarget limits target before) R Ended Waiting :=
  (Ends.bind (observeIdentity_stopping limits target.pid (R := fun _ _ => False)) fun _ _ h => h.elim).mono
    (fun _ => id) (fun _ _ => id) (fun _ _ h => Failed.ended h) fun _ => id

private theorem confirmTarget_ends (limits : ProcessPolicyLimits) (target : ProcessHandle) (before : StatIdentity)
    {L : List Event} :
    Ends (At L) (confirmTarget limits target before)
      (fun _ st => ∃ stat after, (readIdentity (.ok stat) = .ok after ∧
        after.startTimeTicks = target.startTimeTicks ∧ after.name = before.name) ∧
        At (L ++ [.text ⟨target.pid, .stat, target.startTimeTicks, stat⟩]) st)
      Ended Waiting := by
  refine Ends.bind ((observeIdentity_ends .operation limits target.pid).mono (fun _ => id) (fun _ _ => id)
    (fun e st ⟨_, _, h⟩ => Failed.ended h) fun _ => id) fun after => Ends.of_exists fun stat => Ends.of_and fun hstat =>
      Ends.bind_lift (fun _ hafter => ?_) fun e _ _ hst => hst.ended e
  refine (failIfExited_ends target.hasPidfd _).mono (fun _ => id) (fun _ st hst => ?_) (fun e st h => At.ended h e)
    fun _ => id
  have hsame := of_failIf hafter
  simp only [Bool.or_eq_false_iff, bne_eq_false_iff_eq] at hsame
  rw [hsame.1] at hst
  exact ⟨stat, after, ⟨hstat, hsame⟩, hst⟩

theorem observeTarget_ends (limits : ProcessPolicyLimits) (target : ProcessHandle) :
    Ends (At []) (observeTarget limits target)
      (fun r st => ¬ Noticed st.log ∧
        ∃ o, inspectTarget target o = .ok r ∧ ShowsUser target o ∧ record st.log = recordOf target o)
      Ended Waiting := by
  have hidentity (L : List Event) := (observeIdentity_ends (L := L) .operation limits target.pid).mono (fun _ => id)
    (fun _ _ => id) (fun e st ⟨_, _, h⟩ => Failed.ended h) fun _ => id
  have hread (L : List Event) (file : ProcFile) (limit : Nat) :=
    (readProcText_ends (L := L) .operation target.pid file limit false).mono (fun _ => id) (fun _ _ => id)
      (fun e st h => Failed.ended h) fun _ => id
  have hexited (L : List Event) (message : String) := (failIfExited_ends (L := L) target.hasPidfd message).mono
    (fun _ => id) (fun _ _ => id) (fun e st h => At.ended h e) fun _ => id
  refine Ends.bind (hexited [] _) fun _ => Ends.bind (hidentity []) fun before => Ends.of_exists fun stat =>
    Ends.of_and fun hstat => Ends.bind_lift (fun _ hbefore => ?_) fun e _ _ hst => hst.ended e
  refine Ends.bind (hread _ .status _) fun statusText => Ends.of_exists fun process => ?_
  refine Ends.bind_lift (fun status hstatus => ?_) fun e _ _ hst => hst.ended e
  refine Ends.bind_lift (fun _ huid => ?_) fun e _ _ hst => hst.ended e
  refine Ends.bind (effectiveUser_ends.mono (fun _ => id) (fun _ _ => id) (fun e _ h => At.ended h e) fun _ => id)
    fun user => Ends.bind_lift (fun _ huser => ?_) fun e _ _ hst => hst.ended e
  refine Ends.next_at fun page => Ends.bind_lift (fun _ hpage => ?_) fun e _ _ hst => hst.ended e
  refine Ends.bind (hread _ .statm _) fun statmText => Ends.of_exists fun process' => ?_
  refine Ends.bind_lift (fun statm hstatm => ?_) fun e _ _ hst => hst.ended e
  -- the error of the optional text is a value: a stop that was noticed is left to the next check
  let L := [Event.text ⟨target.pid, .stat, before.startTimeTicks, stat⟩,
    .text ⟨target.pid, .status, process, statusText⟩, .user user, .text ⟨target.pid, .statm, process', statmText⟩]
  let M (rollupText : Outcome Bytes) (process'' : Nat) : List Event :=
    match rollupText with
    | .ok content => [.text ⟨target.pid, .smapsRollup, process'', content⟩]
    | .error _ => []
  refine Ends.bind (Q := fun rollupText st => ∃ process'', At (L ++ M rollupText process'') st ∨
    (∃ e, rollupText = .error e) ∧ Stopping L st) (Ends.attempt
    (readProcText_ends .operation target.pid .smapsRollup limits.maxSmapsRollupBytes true) ?_ ?_) fun rollupText => ?_
  · rintro content st ⟨process'', hst⟩
    exact ⟨process'', .inl hst⟩
  · rintro e st (hst | hst)
    · exact ⟨0, .inl (by simpa [M] using hst)⟩
    · exact ⟨0, .inr ⟨⟨e, rfl⟩, hst.1⟩⟩
  refine Ends.of_exists fun process'' => Ends.bind_lift (fun rollup hrollup => ?_) ?_
  · refine Ends.bind (Ends.or (confirmTarget_ends limits target before)
      ((confirmTarget_stopping limits target before).pre fun _ h => h.2)) fun _ => Ends.pure ?_
    rintro st ⟨statAfter, after, ⟨hafter, hstart, hname⟩, hst⟩
    have hbefore : before.startTimeTicks = target.startTimeTicks := by simpa using of_failIf hbefore
    let o : Observation := ⟨.none, false, .ok stat, .ok statusText, user, page.pageSize, .ok statmText, rollupText,
      .ok statAfter, false⟩
    have huid' : status.effectiveUid = target.uid := by simpa using of_failIf huid
    have huser' : status.effectiveUid = user := by simpa using of_failIf huser
    refine ⟨hst.running, o, ?_, ⟨statusText, status, rfl, of_orError hstatus, huid', huser'.symm.trans huid'⟩, ?_⟩
    · have hpage' : ¬ page.pageSize ≤ 0 := by simpa using of_failIf hpage
      simp [inspectTarget, o, failIf, hstat, hbefore, hstatus, huid', ← huser', hpage', hstatm, hrollup, hafter, hstart,
        hname, bind, Except.bind, pure, Except.pure]
    · have hrecord := hst.record_eq
      have hordered := hst.orderly.ordered
      rw [← texts_record, hrecord] at hordered
      rw [hrecord]
      cases rollupText with
      | ok content =>
        have hpin := fun t ht => pinned_of_ends (t := t) (L := [⟨target.pid, .status, process, statusText⟩,
          ⟨target.pid, .statm, process', statmText⟩, ⟨target.pid, .smapsRollup, process'', content⟩]) hordered rfl
          hbefore ht
        have h₁ := hpin _ (List.mem_cons_self ..) rfl
        have h₂ := hpin _ (List.mem_cons_of_mem _ (List.mem_cons_self ..)) rfl
        have h₃ := hpin _ (List.mem_cons_of_mem _ (List.mem_cons_of_mem _ (List.mem_cons_self ..))) rfl
        simp only at h₁ h₂ h₃
        simp [L, M, o, recordOf, textOf, hbefore, h₁, h₂, h₃]
      | error e =>
        have hpin := fun t ht => pinned_of_ends (t := t) (L := [⟨target.pid, .status, process, statusText⟩,
          ⟨target.pid, .statm, process', statmText⟩]) hordered rfl hbefore ht
        have h₁ := hpin _ (List.mem_cons_self ..) rfl
        have h₂ := hpin _ (List.mem_cons_of_mem _ (List.mem_cons_self ..)) rfl
        simp only at h₁ h₂
        simp [L, M, o, recordOf, textOf, hbefore, h₁, h₂]
  · rintro e he st (hst | ⟨⟨e', rfl⟩, -⟩)
    · exact hst.ended e
    · cases he

theorem observeMemory_ends (limits : ProcessPolicyLimits) (policy : ProcessPolicy) (processName : Bytes) :
    Ends (At []) (observeMemory limits policy processName)
      (fun r st => ¬ Noticed st.log ∧ ∃ target ∈ policy.processes, target.name = processName ∧
        ∃ o, inspectTarget target o = .ok r ∧ ShowsUser target o ∧ record st.log = recordOf target o)
      Ended Waiting := by
  refine Ends.bind ((checkStop_ends .operation).mono (fun _ => id) (fun _ _ => id) (fun _ _ h => Failed.ended h)
    fun _ => id) fun _ => ?_
  split
  · exact Ends.raise fun st hst => hst.ended _
  · rename_i target hfind
    refine (observeTarget_ends limits target).mono (fun _ => id) (fun r st hst => ⟨hst.1, target, ?_, ?_, hst.2⟩)
      (fun _ _ => id) fun _ => id
    · exact List.mem_of_find?_eq_some hfind
    · simpa using List.find?_some hfind

/-! ### What `create` pins -/

/-- What `create` has seen of a process before it is pinned: its start time, and its user, who was that of the server. -/
def Pinned (L : List Event) (target : ProcessHandle) : Prop :=
  .user target.uid ∈ L ∧ ∃ stat, .text ⟨target.pid, .stat, target.startTimeTicks, stat⟩ ∈ L

theorem Pinned.mono {L L' : List Event} {target : ProcessHandle} (h : Pinned L target) (hL : L ⊆ L') :
    Pinned L' target := by
  obtain ⟨hu, stat, hs⟩ := h
  exact ⟨hL hu, stat, hL hs⟩

theorem resolvePid_ends (target : ProcessTargetConfig) (L : List Event) :
    Ends (At L) (resolvePid target) (fun _ => At L) (fun _ _ => True) Waiting := by
  refine Ends.bind (Q := fun _ => At L) ?_ fun pid => Ends.bind_lift (fun _ _ => Ends.pure fun _ => id)
    fun _ _ _ _ => trivial
  cases target.pid with
  | none => exact Ends.next_at fun m => Ends.pure fun _ => id
  | some pid => exact Ends.pure fun _ => id

theorem openPidfd_ends (limits : ProcessPolicyLimits) (L : List Event) :
    Ends (At L) (openPidfd limits) (fun _ => At L) (fun _ _ => True) Waiting := by
  refine Ends.next_at fun m => ?_
  split
  · exact Ends.bind (failIfExited_ends true _).anyError fun _ => Ends.pure fun _ => id
  · split
    · exact Ends.pure fun _ => id
    · exact Ends.raise fun _ _ => trivial
  · exact Ends.raise fun _ _ => trivial

theorem openDirectory_ends (L : List Event) :
    Ends (At L) openDirectory (fun _ => At L) (fun _ _ => True) Waiting := by
  refine Ends.next_at fun m => ?_
  split
  · exact Ends.pure fun _ => id
  · exact Ends.raise fun _ _ => trivial

theorem pinTarget_ends (limits : ProcessPolicyLimits) (target : ProcessTargetConfig) (L : List Event) :
    Ends (At L) (pinTarget limits target) (fun handle st => ∃ L', (L ⊆ L' ∧ Pinned L' handle.1) ∧ At L' st)
      (fun _ _ => True) Waiting := by
  refine Ends.bind (resolvePid_ends target L) fun pid => Ends.bind (openPidfd_ends limits L) fun hasPidfd =>
    Ends.bind (openDirectory_ends L) fun _ => ?_
  refine Ends.bind (readProcText_ends .unlimited pid .status _ false).anyError fun statusText =>
    Ends.of_exists fun process => Ends.bind_lift (fun status _ => ?_) fun _ _ _ _ => trivial
  refine Ends.bind effectiveUser_ends.anyError fun user => Ends.bind_lift (fun _ huser => ?_) fun _ _ _ _ => trivial
  have huser : status.effectiveUid = user := by simpa using of_failIf huser
  refine Ends.bind (observeIdentity_ends .unlimited limits pid).anyError fun identity => Ends.of_exists fun stat =>
    Ends.of_and fun _ => Ends.bind (failIfExited_ends hasPidfd _).anyError fun _ => ?_
  refine Ends.bind (Ends.attempt (observeIdentity_ends .unlimited limits pid)
    (R := fun confirmed st => ∀ i, confirmed = .ok i → ∃ L', L ++ [.text ⟨pid, .status, process, statusText⟩] ++
      [.user user] ++ [.text ⟨pid, .stat, identity.startTimeTicks, stat⟩] ⊆ L' ∧ At L' st) ?_ ?_) fun confirmed =>
    Ends.bind_lift (fun _ hconfirmed => ?_) fun _ _ _ _ => trivial
  · rintro i st ⟨stat', -, hst⟩ _ -
    exact ⟨_, List.subset_append_left _ _, hst⟩
  · rintro e st - i hi
    cases hi
  have hconfirmed := of_failIf hconfirmed
  cases confirmed with
  | error e => cases hconfirmed
  | ok i =>
    refine Ends.pure fun st hst => ?_
    obtain ⟨L', hL, hst⟩ := hst i rfl
    refine ⟨L', ⟨fun e he => hL (by simp [he]), hL ?_, stat, hL ?_⟩, hst⟩
    · simp [huser]
    · simp

theorem pinTargets_ends (limits : ProcessPolicyLimits) (targets : List ProcessTargetConfig) (policy : ProcessPolicy) :
    Ends (fun st => ∃ L, (∀ target ∈ policy.processes, Pinned L target) ∧ At L st) (pinTargets limits targets policy)
      (fun policy st => ∃ L, (∀ target ∈ policy.processes, Pinned L target) ∧ At L st) (fun _ _ => True) Waiting := by
  induction targets generalizing policy with
  | nil => exact Ends.pure fun _ => id
  | cons target targets ih =>
    rw [pinTargets]
    split
    · split
      · exact Ends.raise fun _ _ => trivial
      · refine Ends.of_exists fun L => Ends.of_and fun hpinned =>
          Ends.bind (pinTarget_ends limits target L) fun handle => (ih _).pre ?_
        rintro st ⟨L', ⟨hL, hnew⟩, hst⟩
        refine ⟨L', fun t ht => ?_, hst⟩
        rcases List.mem_append.1 ht with ht | ht
        · exact (hpinned t ht).mono hL
        · rw [List.mem_singleton.1 ht]
          exact hnew
    · exact Ends.raise fun _ _ => trivial

/-- Every process of a created policy was seen with its start time and its user. -/
theorem create_ends (limits : ProcessPolicyLimits) (processes : List ProcessTargetConfig) :
    Ends (At []) (create limits processes)
      (fun policy st => ∃ L, (∀ target ∈ policy.processes, Pinned L target) ∧ At L st) (fun _ _ => True) Waiting := by
  refine Ends.bind_lift (fun _ _ => Ends.next_at fun root => Ends.bind_lift (fun _ _ => ?_) fun _ _ _ _ => trivial)
    fun _ _ _ _ => trivial
  exact (pinTargets_ends limits processes _).pre fun st hst => ⟨[], by simp, hst⟩

/-! ### Main result -/

theorem At.start {moments : List Moment} (h : History moments) : At [] ⟨moments, []⟩ :=
  ⟨Orderly.start h, by simp [Noticed], rfl⟩

/-- The operation starts at any time after `create` and runs while processes exit, PIDs are given to others, texts change,
and the operation is stopped.  A result is what `inspectTarget` makes of texts that were all read from the process whose
start time `create` pinned, and the user of its `status` text is that of the server, now and at `create`; the record has no
other text in it.  When a check has noticed a stop, the run ends with its error, or waits for its next call. -/
theorem observeMemory_pinned {limits : ProcessPolicyLimits} {processes : List ProcessTargetConfig}
    {moments rest : List Moment} {policy : ProcessPolicy} {created st : Observing} {processName : Bytes}
    {ending : Ending ProcessMemoryError ProcessMemoryResult} (hm : History moments)
    (hc : create limits processes ⟨moments, []⟩ = (.returned policy, created)) (hr : rest <:+ created.moments)
    (ho : observeMemory limits policy processName ⟨rest, []⟩ = (ending, st)) :
    (∀ r, ending = .returned r → ∃ target ∈ policy.processes, target.name = processName ∧ Pinned created.log target ∧
      ∃ o, inspectTarget target o = .ok r ∧ ShowsUser target o ∧ record st.log = recordOf target o) ∧
    (Noticed st.log → (∃ e, ending = .raised e ∧ IsStopError e) ∨ ending = .suspended ∧ st.moments = []) := by
  obtain ⟨L, hpinned, hat⟩ := (create_ends limits processes).returned (At.start hm) hc
  have hrest := At.start (hat.orderly.history.suffix hr)
  have hends := observeMemory_ends limits policy processName
  constructor
  · rintro r rfl
    obtain ⟨-, target, ht, hname, hresult⟩ := hends.returned hrest ho
    have hlog : Pinned created.log target := by
      refine (hpinned target ht).mono ?_
      rw [← hat.record_eq]
      exact List.filter_subset_self _
    exact ⟨target, ht, hname, hlog, hresult⟩
  · intro hn
    cases ending with
    | returned r => exact absurd hn (hends.returned hrest ho).1
    | raised e => exact .inl ⟨e, rfl, hends.raised hrest ho hn⟩
    | suspended => exact .inr ⟨rfl, hends.suspended hrest ho⟩

/-- One process, started at 42, that is there all the time. -/
private def quietMoment : Moment where
  world := { life := fun _ => ⟨some 42, 42, by simp⟩ }
  text _ file :=
    match file with
    | .stat => bytes "7 (a) S 0 0 0 0 0 0 0 0 0 0 0 0 0 0 0 0 0 0 42 0\n"
    | .status => bytes "Name:\ta\nState:\tS\nUid:\t5\t5\t5\t5\nThreads:\t1\n"
    | .statm => bytes "1 1 1 1 0 1 0\n"
    | .smapsRollup => bytes "Rss: 4 kB\n"
  read := .returned 1000
  effectiveUid := 5
  pageSize := 4096

private def quietMoments : List Moment := List.replicate 60 quietMoment

private theorem quietMoments_history : History quietMoments where
  genuine m hm := by
    rw [List.eq_of_mem_replicate hm]
    intro pid s hs i hi
    have hparse : (parseStatIdentity (quietMoment.text 7 .stat)).map (·.startTimeTicks) = some 42 := by
      decide +kernel
    have hi : parseStatIdentity (quietMoment.text 7 .stat) = some i := hi
    rw [hi] at hparse
    exact (Option.some.inj hparse).trans (Option.some.inj hs)
  ordered := by
    rw [quietMoments, List.pairwise_replicate]
    exact .inr .refl

theorem observeMemory_pinned_quiet : ∃ policy created r st, ∃ target ∈ policy.processes, ∃ o,
    create {} [⟨bytes "a", some 7⟩] ⟨quietMoments, []⟩ = (.returned policy, created) ∧
    observeMemory {} policy (bytes "a") ⟨created.moments, []⟩ = (.returned r, st) ∧
    record st.log = recordOf target o := by
  obtain ⟨policy, created, hc⟩ := exists_returned
    (show (create {} [⟨bytes "a", some 7⟩] ⟨quietMoments, []⟩).1.isReturned = true by decide +kernel)
  have hrun : ((create {} [⟨bytes "a", some 7⟩] >>= fun policy =>
      modify (fun s => ⟨s.moments, []⟩) >>= fun _ => observeMemory {} policy (bytes "a"))
      ⟨quietMoments, []⟩).1.isReturned = true := by decide +kernel
  rw [bind_apply, hc] at hrun
  obtain ⟨r, st, ho⟩ := exists_returned (x := observeMemory {} policy (bytes "a")) (s := ⟨created.moments, []⟩) hrun
  obtain ⟨target, ht, -, -, o, -, -, hrecord⟩ :=
    (observeMemory_pinned quietMoments_history hc (List.suffix_refl _) ho).1 r rfl
  exact ⟨policy, created, r, st, target, ht, o, hc, ho, hrecord⟩

end ProcessObservation

end NativeMcp
