import NativeMcp.Agent.Orchestrator
import NativeMcp.Lib.Records

/-!
# How the client reads its child

`_drain` reads what the child has written, cuts off the lines that are complete and bounds what it keeps.  It takes the
stream apart as a whole: in which pieces it arrives makes no difference (`drain_reads`).
-/

namespace NativeMcp.Agent

open Records (joined Parsed)

/-! ### What can be read -/

inductive Channel where
  | out
  | err
  deriving DecidableEq, Repr

/-- What one `os.read` returns. -/
structure Chunk where
  channel : Channel
  data : Bytes

/-- The part of a chunk that belongs to stdout. -/
def Chunk.outData (chunk : Chunk) : Bytes :=
  match chunk.channel with
  | .out => chunk.data
  | .err => []

/-- How much of a chunk belongs to stderr. -/
def Chunk.errCount (chunk : Chunk) : Nat :=
  match chunk.channel with
  | .out => 0
  | .err => chunk.data.length

/-- What `McpStdioClient` keeps of its child.  `received` is all that has been read of stdout; the client itself keeps
its length, `out_total`. -/
structure ChildClient where
  nextId : Nat := 1
  started : Bool := false
  startupPending : Bool := true
  out : Bytes := []
  err : Bytes := []
  received : Bytes := []
  errTotal : Nat := 0
  deriving DecidableEq

namespace ChildClient

/-- What is read is kept; of stderr only a marker. -/
def take (s : ChildClient) (chunk : Chunk) : ChildClient :=
  match chunk.channel with
  | .out => { s with out := s.out ++ chunk.data, received := s.received ++ chunk.data }
  | .err => { s with err := s.err ++ bytes "<redacted>", errTotal := s.errTotal + chunk.data.length }

def withOut (s : ChildClient) (out : Bytes) : ChildClient := { s with out }

/-- `total > bound` -/
def exceeds (limits : Limits) (s : ChildClient) : Channel → Bool
  | .out => limits.childStdoutBytes < s.received.length
  | .err => limits.childStderrBytes < s.errTotal

end ChildClient

/-! ### `_drain` -/

/-- `self.out.partition(b"\n")`, where there is a line feed. -/
def cutLine : Bytes → Option (Bytes × Bytes)
  | [] => none
  | b :: out => if b = 0x0A then some ([], out) else (cutLine out).map fun p => (b :: p.1, p.2)

theorem cutLine_eq_some {out : Bytes} {p : Bytes × Bytes} (h : cutLine out = some p) :
    out = p.1 ++ 0x0A :: p.2 ∧ 0x0A ∉ p.1 := by
  induction out generalizing p with
  | nil => cases h
  | cons b out ih =>
    rw [cutLine] at h
    by_cases hb : b = 0x0A
    · rw [if_pos hb] at h
      cases h
      rw [hb]
      exact ⟨rfl, List.not_mem_nil⟩
    · rw [if_neg hb] at h
      obtain ⟨q, hq, rfl⟩ := Option.map_eq_some_iff.1 h
      obtain ⟨hout, hfree⟩ := ih hq
      refine ⟨by rw [hout]; rfl, ?_⟩
      rw [List.mem_cons, not_or]
      exact ⟨fun heq => hb heq.symm, hfree⟩

theorem cutLine_eq_none {out : Bytes} (h : cutLine out = none) : 0x0A ∉ out := by
  induction out with
  | nil => exact List.not_mem_nil
  | cons b out ih =>
    rw [cutLine] at h
    by_cases hb : b = 0x0A
    · rw [if_pos hb] at h
      cases h
    · rw [if_neg hb, Option.map_eq_none_iff] at h
      rw [List.mem_cons, not_or]
      exact ⟨fun heq => hb heq.symm, ih h⟩

/-- What the loop over the lines leaves: they have been cut off, and all of them are within the limit. -/
structure Cut where
  lines : List Bytes
  rest : Bytes
  within : Bool

/-- The loop of `_drain` over the lines in the buffer, and the check of what is left of it. -/
def takeLines (limit : Nat) (out : Bytes) : Cut :=
  match _h : cutLine out with
  | none => ⟨[], out, out.length ≤ limit⟩
  | some (line, rest) =>
    if limit < line.length then ⟨[], rest, false⟩
    else
      let cut := takeLines limit rest
      ⟨line :: cut.lines, cut.rest, cut.within⟩
termination_by out.length
decreasing_by
  obtain ⟨hout, -⟩ := cutLine_eq_some _h
  dsimp only at hout
  rw [hout, List.length_append, List.length_cons]
  omega

/-- The records of a stream and what is left of it are within a limit. -/
def AreWithin (limit : Nat) (records : List Bytes) (rest : Bytes) : Prop :=
  (∀ record ∈ records, record.length ≤ limit) ∧ rest.length ≤ limit

theorem takeLines_spec (limit : Nat) (out : Bytes) :
    ((takeLines limit out).within = true → Parsed 0x0A out (takeLines limit out).lines (takeLines limit out).rest ∧
      AreWithin limit (takeLines limit out).lines (takeLines limit out).rest) ∧
    ((takeLines limit out).within = false → ∀ records rest, Parsed 0x0A out records rest →
      ¬ AreWithin limit records rest) := by
  induction hn : out.length using Nat.strong_induction_on generalizing out with
  | _ n ih =>
    rw [takeLines]
    split
    · rename_i hnone
      have hfree := cutLine_eq_none hnone
      constructor
      · intro hwithin
        exact ⟨.nil hfree, fun _ hr => absurd hr List.not_mem_nil, of_decide_eq_true hwithin⟩
      · intro hlong records rest hparsed hwithin
        obtain ⟨-, rfl⟩ := hparsed.unique (.nil hfree)
        exact of_decide_eq_false hlong hwithin.2
    · rename_i line rest hcut
      obtain ⟨hout, hfree⟩ := cutLine_eq_some hcut
      dsimp only at hout hfree
      by_cases hlong : limit < line.length
      · rw [if_pos hlong]
        refine ⟨fun hwithin => absurd hwithin Bool.false_ne_true, fun _ records left hparsed hwithin => ?_⟩
        obtain ⟨later, last, hlater⟩ := Parsed.exists_parsed (0x0A : UInt8) rest
        rw [hout] at hparsed
        obtain ⟨rfl, -⟩ := hparsed.unique (hlater.cons hfree)
        exact Nat.not_lt.2 (hwithin.1 line List.mem_cons_self) hlong
      · rw [if_neg hlong]
        have hshort : rest.length < n := by
          rw [← hn, hout, List.length_append, List.length_cons]
          omega
        obtain ⟨hreturns, hrefuses⟩ := ih rest.length hshort rest rfl
        constructor
        · intro hwithin
          obtain ⟨hparsed, hrecords, hrest⟩ := hreturns hwithin
          rw [hout]
          exact ⟨hparsed.cons hfree, List.forall_mem_cons.2 ⟨Nat.not_lt.1 hlong, hrecords⟩, hrest⟩
        · intro hrefused records left hparsed hwithin
          obtain ⟨later, last, hlater⟩ := Parsed.exists_parsed (0x0A : UInt8) rest
          rw [hout] at hparsed
          obtain ⟨rfl, rfl⟩ := hparsed.unique (hlater.cons hfree)
          exact hrefuses hrefused later _ hlater ⟨(List.forall_mem_cons.1 hwithin.1).2, hwithin.2⟩

section

variable (limits : Limits) (responseLimit : Nat)

/-- `_drain`, with the data of the keys that `select` returns. -/
def drain : List Chunk → Program ChildClient Raised (List Bytes)
  | [] => return []
  | chunk :: chunks =>
    if chunk.data = [] then drain chunks
    else do
      Program.modify fun s => s.take chunk
      let s ← Program.get
      if s.exceeds limits chunk.channel then Program.raise (.provider .oversizedResponse)
      else
        match chunk.channel with
        | .err => drain chunks
        | .out => do
          let cut := takeLines responseLimit s.out
          Program.modify fun s => s.withOut cut.rest
          if cut.within then do
            let records ← drain chunks
            return cut.lines ++ records
          else Program.raise (.provider .oversizedResponse)

end

/-! ### What `_drain` does -/

/-- What is kept between two reads is bounded, and the buffer has no complete line. -/
structure ChildClient.Bounded (limits : Limits) (s : ChildClient) : Prop where
  out : s.received.length ≤ limits.childStdoutBytes
  err : s.errTotal ≤ limits.childStderrBytes
  free : 0x0A ∉ s.out

/-- What has been read of stdout in these chunks. -/
def outData (chunks : List Chunk) : Bytes := chunks.flatMap Chunk.outData

def errCount (chunks : List Chunk) : Nat := (chunks.map Chunk.errCount).sum

/-- The chunks are within the limits of the client and of the response; this says nothing of where they are cut. -/
structure ChildClient.Accepts (limits : Limits) (responseLimit : Nat) (s : ChildClient) (chunks : List Chunk) :
    Prop where
  out : s.received.length + (outData chunks).length ≤ limits.childStdoutBytes
  err : s.errTotal + errCount chunks ≤ limits.childStderrBytes
  lines : outData chunks ≠ [] → ∀ records rest, Parsed 0x0A (s.out ++ outData chunks) records rest →
    AreWithin responseLimit records rest

/-- What changes when chunks have been read. -/
structure ChildClient.Reads (s : ChildClient) (chunks : List Chunk) (records : List Bytes) (t : ChildClient) :
    Prop where
  parsed : Parsed 0x0A (s.out ++ outData chunks) records t.out
  received : t.received = s.received ++ outData chunks
  errTotal : t.errTotal = s.errTotal + errCount chunks
  nextId : t.nextId = s.nextId
  flags : t.started = s.started ∧ t.startupPending = s.startupPending

section

variable {limits : Limits} {responseLimit : Nat} {s t : ChildClient} {chunk : Chunk} {chunks : List Chunk}

theorem outData_cons : outData (chunk :: chunks) = chunk.outData ++ outData chunks := List.flatMap_cons

theorem errCount_cons : errCount (chunk :: chunks) = chunk.errCount + errCount chunks := by
  simp [errCount]

open ChildClient (Bounded Accepts Reads)

theorem ChildClient.Reads.bounded {records : List Bytes} (h : Reads s chunks records t)
    (haccepts : Accepts limits responseLimit s chunks) : Bounded limits t where
  out := by
    rw [h.received, List.length_append]
    exact haccepts.out
  err := by
    rw [h.errTotal]
    exact haccepts.err
  free := h.parsed.rest

/-- What is accepted with more behind it is accepted alone. -/
theorem ChildClient.Accepts.head (h : Accepts limits responseLimit s (chunk :: chunks)) :
    Accepts limits responseLimit s [chunk] := by
  have hone : outData [chunk] = chunk.outData := by simp [outData]
  have hcount : errCount [chunk] = chunk.errCount := by simp [errCount]
  obtain ⟨hout, herr, hlines⟩ := h
  rw [outData_cons] at hout hlines
  rw [errCount_cons] at herr
  rw [List.length_append] at hout
  refine ⟨by rw [hone]; omega, by rw [hcount]; omega, ?_⟩
  intro hne records rest hparsed
  rw [hone] at hne hparsed
  obtain ⟨all, last, hwhole⟩ := Parsed.exists_parsed (0x0A : UInt8) (s.out ++ (chunk.outData ++ outData chunks))
  have hwithin := hlines (by simp [hne]) all last hwhole
  rw [← List.append_assoc] at hwhole
  refine ⟨fun record hrecord => hwithin.1 record ((hparsed.records_prefix hwhole).subset hrecord), ?_⟩
  exact hparsed.length_rest_le hwhole hwithin.1 hwithin.2

/-- A chunk and those after it are accepted if it is, and they are in the state after it. -/
theorem accepts_cons {records : List Bytes} (hfree : 0x0A ∉ s.out) (h : Reads s [chunk] records t) :
    Accepts limits responseLimit s (chunk :: chunks) ↔
      Accepts limits responseLimit s [chunk] ∧ Accepts limits responseLimit t chunks := by
  have hone : outData [chunk] = chunk.outData := by simp [outData]
  have hcount : errCount [chunk] = chunk.errCount := by simp [errCount]
  have hparsed := h.parsed
  rw [hone] at hparsed
  constructor
  · intro haccepts
    refine ⟨haccepts.head, ?_⟩
    obtain ⟨hout, herr, hlines⟩ := haccepts
    rw [outData_cons] at hout hlines
    rw [errCount_cons] at herr
    rw [List.length_append] at hout
    refine ⟨?_, ?_, ?_⟩
    · rw [h.received, hone, List.length_append]
      omega
    · rw [h.errTotal, hcount]
      omega
    · intro hne later last hlater
      have hwhole := hparsed.append hlater
      rw [List.append_assoc] at hwhole
      have hwithin := hlines (by simp [hne]) _ _ hwhole
      exact ⟨fun record hrecord => hwithin.1 record (List.mem_append_right _ hrecord), hwithin.2⟩
  · rintro ⟨hfirst, hlater⟩
    have hout := hlater.out
    have herr := hlater.err
    rw [h.received, hone, List.length_append] at hout
    rw [h.errTotal, hcount] at herr
    refine ⟨by rw [outData_cons, List.length_append]; omega, by rw [errCount_cons]; omega, ?_⟩
    intro hne records' rest' hparsed'
    obtain ⟨later, last, hlaterParsed⟩ := Parsed.exists_parsed (0x0A : UInt8) (t.out ++ outData chunks)
    have hwhole := hparsed.append hlaterParsed
    rw [List.append_assoc, ← outData_cons] at hwhole
    obtain ⟨rfl, rfl⟩ := hparsed'.unique hwhole
    -- the bounds of the lines hold for the part in which something was read
    have hfirstWithin : chunk.outData ≠ [] → AreWithin responseLimit records t.out := by
      intro hne
      exact hfirst.lines (by rw [hone]; exact hne) records t.out h.parsed
    by_cases hlaterNe : outData chunks = []
    · rw [outData_cons, hlaterNe, List.append_nil] at hne
      rw [hlaterNe, List.append_nil] at hlaterParsed
      obtain ⟨rfl, rfl⟩ := hlaterParsed.unique (.nil hparsed.rest)
      rw [List.append_nil]
      exact hfirstWithin hne
    · have hwithin := hlater.lines hlaterNe later _ hlaterParsed
      refine ⟨fun record hrecord => ?_, hwithin.2⟩
      rcases List.mem_append.1 hrecord with hold | hnew
      · by_cases hfirstNe : chunk.outData = []
        · rw [hfirstNe, List.append_nil] at hparsed
          obtain ⟨hnone, -⟩ := hparsed.unique (.nil hfree)
          rw [hnone] at hold
          cases hold
        · exact (hfirstWithin hfirstNe).1 record hold
      · exact hwithin.1 record hnew

variable (responseLimit) in
/-- What `_drain` does with one chunk: it is read, or it is refused. -/
theorem take_reads (hs : Bounded limits s) (hne : chunk.data ≠ []) :
    (∃ records t, Reads s [chunk] records t ∧ Accepts limits responseLimit s [chunk] ∧
      ∀ chunks, drain limits responseLimit (chunk :: chunks) s =
        (drain limits responseLimit chunks >>= fun later => pure (records ++ later) :
          Program ChildClient Raised (List Bytes)) t) ∨
    (¬ Accepts limits responseLimit s [chunk] ∧ ∀ chunks, ∃ t,
      drain limits responseLimit (chunk :: chunks) s = (.raised (.provider .oversizedResponse), t)) := by
  have hout : outData [chunk] = chunk.outData := by simp [outData]
  have hcount : errCount [chunk] = chunk.errCount := by simp [errCount]
  obtain ⟨channel, data⟩ := chunk
  cases channel with
  | err =>
    have hnone : outData [⟨.err, data⟩] = [] := hout
    have hall : errCount [⟨.err, data⟩] = data.length := hcount
    by_cases hexceeds : (s.take ⟨.err, data⟩).exceeds limits .err = true
    · right
      refine ⟨fun haccepts => ?_, fun chunks => ⟨s.take ⟨.err, data⟩, ?_⟩⟩
      · have herr := haccepts.err
        rw [hall] at herr
        exact Nat.not_lt.2 herr (of_decide_eq_true hexceeds)
      · rw [drain, if_neg hne, Program.bind_apply, Program.modify_apply]
        dsimp only
        rw [Program.bind_apply, Program.get_apply]
        dsimp only
        rw [if_pos hexceeds]
        rfl
    · left
      refine ⟨[], s.take ⟨.err, data⟩, ⟨?_, ?_, ?_, rfl, rfl, rfl⟩, ⟨?_, ?_, ?_⟩, fun chunks => ?_⟩
      · rw [hnone, List.append_nil]
        exact .nil hs.free
      · rw [hnone, List.append_nil]
        rfl
      · rw [hall]
        rfl
      · rw [hnone]
        exact hs.out
      · rw [hall]
        exact Nat.not_lt.1 fun hlt => hexceeds (decide_eq_true hlt)
      · exact fun hsome => absurd hnone hsome
      · rw [drain, if_neg hne, Program.bind_apply, Program.modify_apply]
        dsimp only
        rw [Program.bind_apply, Program.get_apply]
        dsimp only
        rw [if_neg hexceeds, Program.bind_apply]
        generalize drain limits responseLimit chunks (s.take ⟨.err, data⟩) = r
        obtain ⟨records | raised | _, t⟩ := r <;> rfl
  | out =>
    have hall : outData [⟨.out, data⟩] = data := hout
    have hnone : errCount [⟨.out, data⟩] = 0 := hcount
    obtain ⟨hcut, hlong⟩ := takeLines_spec responseLimit (s.out ++ data)
    by_cases hexceeds : (s.take ⟨.out, data⟩).exceeds limits .out = true
    · right
      refine ⟨fun haccepts => ?_, fun chunks => ⟨s.take ⟨.out, data⟩, ?_⟩⟩
      · have hlength := haccepts.out
        rw [hall, ← List.length_append] at hlength
        exact Nat.not_lt.2 hlength (of_decide_eq_true hexceeds)
      · rw [drain, if_neg hne, Program.bind_apply, Program.modify_apply]
        dsimp only
        rw [Program.bind_apply, Program.get_apply]
        dsimp only
        rw [if_pos hexceeds]
        rfl
    · have hlength : s.received.length + data.length ≤ limits.childStdoutBytes := by
        rw [← List.length_append]
        exact Nat.not_lt.1 fun hlt => hexceeds (decide_eq_true hlt)
      cases hwithin : (takeLines responseLimit (s.out ++ data)).within with
      | true =>
        left
        obtain ⟨hparsed, hbounds⟩ := hcut hwithin
        refine ⟨(takeLines responseLimit (s.out ++ data)).lines,
          (s.take ⟨.out, data⟩).withOut (takeLines responseLimit (s.out ++ data)).rest,
          ⟨?_, ?_, ?_, rfl, rfl, rfl⟩, ⟨?_, ?_, ?_⟩, fun chunks => ?_⟩
        · rw [hall]
          exact hparsed
        · rw [hall]
          rfl
        · rw [hnone]
          rfl
        · rw [hall]
          exact hlength
        · rw [hnone]
          exact hs.err
        · intro _ records rest hother
          rw [hall] at hother
          obtain ⟨rfl, rfl⟩ := hother.unique hparsed
          exact hbounds
        · rw [drain, if_neg hne, Program.bind_apply, Program.modify_apply]
          dsimp only
          rw [Program.bind_apply, Program.get_apply]
          dsimp only
          rw [if_neg hexceeds, Program.bind_apply, Program.modify_apply]
          dsimp only
          rw [if_pos (show (takeLines responseLimit (s.take ⟨.out, data⟩).out).within = true from hwithin)]
          rfl
      | false =>
        right
        obtain ⟨records, rest, hparsed⟩ := Parsed.exists_parsed (0x0A : UInt8) (s.out ++ data)
        refine ⟨fun haccepts => ?_, fun chunks =>
          ⟨(s.take ⟨.out, data⟩).withOut (takeLines responseLimit (s.out ++ data)).rest, ?_⟩⟩
        · exact hlong hwithin records rest hparsed
            (haccepts.lines (by rw [hall]; exact hne) records rest (by rw [hall]; exact hparsed))
        · rw [drain, if_neg hne, Program.bind_apply, Program.modify_apply]
          dsimp only
          rw [Program.bind_apply, Program.get_apply]
          dsimp only
          rw [if_neg hexceeds, Program.bind_apply, Program.modify_apply]
          dsimp only
          rw [if_neg (by
            rw [show (takeLines responseLimit (s.take ⟨.out, data⟩).out).within = false from hwithin]
            exact Bool.false_ne_true)]
          rfl

variable (responseLimit) in
/-- `_drain` takes the stream apart as a whole: it returns the lines that are complete if everything is within its
limits, and raises if not. -/
theorem drain_reads (chunks : List Chunk) (hs : Bounded limits s) :
    (Accepts limits responseLimit s chunks ∧ ∃ records t, Reads s chunks records t ∧
      drain limits responseLimit chunks s = (.returned records, t)) ∨
    (¬ Accepts limits responseLimit s chunks ∧
      ∃ t, drain limits responseLimit chunks s = (.raised (.provider .oversizedResponse), t)) := by
  induction chunks generalizing s with
  | nil =>
    left
    refine ⟨⟨hs.out, hs.err, fun hne => absurd rfl hne⟩, [], s, ⟨?_, ?_, rfl, rfl, rfl, rfl⟩, rfl⟩
    · rw [show outData [] = [] from rfl, List.append_nil]
      exact .nil hs.free
    · exact (List.append_nil _).symm
  | cons chunk chunks ih =>
    by_cases hempty : chunk.data = []
    · -- a read without data changes nothing
      have hnone : chunk.outData = [] ∧ chunk.errCount = 0 := by
        obtain ⟨channel, data⟩ := chunk
        cases hempty
        cases channel <;> exact ⟨rfl, rfl⟩
      have hout : outData (chunk :: chunks) = outData chunks := by
        rw [outData_cons, hnone.1, List.nil_append]
      have herr : errCount (chunk :: chunks) = errCount chunks := by
        rw [errCount_cons, hnone.2, Nat.zero_add]
      have hdrain : drain limits responseLimit (chunk :: chunks) s = drain limits responseLimit chunks s := by
        rw [drain, if_pos hempty]
      have haccepts : Accepts limits responseLimit s (chunk :: chunks) ↔ Accepts limits responseLimit s chunks := by
        constructor
        · intro h
          exact ⟨hout ▸ h.out, herr ▸ h.err, hout ▸ h.lines⟩
        · intro h
          exact ⟨hout.symm ▸ h.out, herr.symm ▸ h.err, hout.symm ▸ h.lines⟩
      rw [hdrain, haccepts]
      rcases ih hs with ⟨haccepted, records, t, hreads, heq⟩ | hrefused
      · exact .inl ⟨haccepted, records, t, ⟨hout.symm ▸ hreads.parsed, hout.symm ▸ hreads.received,
          herr.symm ▸ hreads.errTotal, hreads.nextId, hreads.flags⟩, heq⟩
      · exact .inr hrefused
    · rcases take_reads responseLimit hs hempty with
        ⟨records, t, hreads, haccepted, hdrain⟩ | ⟨hrefused, hdrain⟩
      · rw [hdrain, accepts_cons hs.free hreads, Program.bind_apply]
        rcases ih (hreads.bounded haccepted) with ⟨hlater, records', t', hreads', heq⟩ | ⟨hlater, t', heq⟩
        · left
          rw [heq]
          refine ⟨⟨haccepted, hlater⟩, records ++ records', t', ⟨?_, ?_, ?_, ?_, ?_, ?_⟩, rfl⟩
          · rw [outData_cons, ← List.append_assoc]
            have hfirst := hreads.parsed
            rw [show outData [chunk] = chunk.outData by simp [outData]] at hfirst
            exact hfirst.append hreads'.parsed
          · rw [hreads'.received, hreads.received, outData_cons, List.append_assoc]
            simp [outData]
          · rw [hreads'.errTotal, hreads.errTotal, errCount_cons]
            simp [errCount, Nat.add_assoc]
          · exact hreads'.nextId.trans hreads.nextId
          · exact hreads'.flags.1.trans hreads.flags.1
          · exact hreads'.flags.2.trans hreads.flags.2
        · right
          rw [heq]
          exact ⟨fun h => hlater h.2, t', rfl⟩
      · exact .inr ⟨fun h => hrefused h.head, hdrain chunks⟩

end

end NativeMcp.Agent
