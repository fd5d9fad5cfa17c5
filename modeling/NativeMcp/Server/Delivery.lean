import NativeMcp.Scheduler.Guarantees
import NativeMcp.Scheduler.Results
import NativeMcp.Server.Lines
import NativeMcp.Tools.ProcessResult

/-!
# Delivering results

The server and the scheduler together: the completion callback formats the result of a call and writes the response;
an exception that leaves it is swallowed by `finish`, so a result that cannot be serialized is lost.  A `proc.memory`
call is answered exactly when its status text is UTF-8 where it is copied (`observed_answered_iff`).
-/

namespace NativeMcp

open JsonRpc Json Scheduler ProcessParsing ProcessMemory

/-! ### The callback -/

/-- The line that the callback writes; none if formatting throws or nothing fits the limit. -/
def Server.callbackResponse (server : Server) (requestId : Json) (execution : ToolExecutionResult) : Option Bytes :=
  (server.formatToolResult requestId execution).bind (·.response)

/-- The arguments of the callback of a call. -/
def invocations (h : Handle) (es : List Event) : List (Json × ToolExecutionResult) :=
  es.filterMap fun
    | .completionInvoked h' id result => if h' = h then some (id, result) else none
    | _ => none

/-- The response lines written for a call, every write succeeding. -/
def writtenFor (server : Server) (h : Handle) (es : List Event) : List Bytes :=
  (invocations h es).filterMap fun p => server.callbackResponse p.1 p.2

theorem completionIds_eq_map (h : Handle) (es : List Event) : completionIds h es = (invocations h es).map Prod.fst := by
  rw [completionIds, invocations, List.map_filterMap]
  refine List.filterMap_congr fun e _ => ?_
  cases e with
  | completionInvoked h' id result => by_cases hh : h' = h <;> simp [hh]
  | _ => rfl

theorem mem_invocations {h : Handle} {es : List Event} {id : Json} {result : ToolExecutionResult}
    (hm : (id, result) ∈ invocations h es) : .completionInvoked h id result ∈ es := by
  obtain ⟨e, he, hp⟩ := List.mem_filterMap.1 hm
  split at hp
  · split at hp
    · rename_i hh
      cases hp
      exact hh ▸ he
    · cases hp
  · cases hp

/-- An unmarked call that ended within its time was answered once, with what its executor returned. -/
theorem invocations_eq {b : ResourceBudget} {s : State} (hs : (system b).Reachable s) {h : Handle}
    {result : ToolExecutionResult} (hd : s.pc h = .done) (hm : ¬ MarkedBeforeFinish h s.history)
    (ht : .timedOut h ∉ s.history) (hr : .executorReturned h result ∈ s.history) :
    invocations h s.history = [((s.control h).call.requestId, result)] := by
  have hc := (exactlyOnce_of_done hs hd).answered hm
  rw [completionIds_eq_map] at hc
  obtain ⟨⟨id, delivered⟩, hi, hid⟩ := List.map_eq_singleton_iff.1 hc
  have hinv : .completionInvoked h id delivered ∈ s.history := mem_invocations (by rw [hi]; simp)
  rw [hi, completionInvoked_result hs hinv hr ht, ← hid]

/-! ### Which results are written -/

/-- The error that replaces an oversized response fits the limit, under no identifier or under this one. -/
def Answerable (limit : Nat) (id : Json) : Prop := 97 ≤ limit ∨ ∃ t, id.dump = some t ∧ 93 + t.length ≤ limit

/-- The length of the error that replaces an oversized response. -/
theorem length_dump_responseTooLarge {id : Json} {t u : Bytes} (hid : id.dump = some t)
    (hu : (responseTooLarge id).dump = some u) : u.length = 93 + t.length := by
  have he : (Json.ofPairs [("code", .numberInteger kResponseTooLarge),
      ("message", .text "Response exceeds configured limit")]).dump =
      some (bytes "\x7b\"code\":-32003,\"message\":\"Response exceeds configured limit\"\x7d") := by decide +kernel
  rw [responseTooLarge, dump_makeError hid he] at hu
  obtain rfl := Option.some.inj hu
  have h1 : (bytes "\x7b\"error\":").length = 9 := by decide +kernel
  have h2 : (bytes "\x7b\"code\":-32003,\"message\":\"Response exceeds configured limit\"\x7d").length = 61 := by
    decide +kernel
  have h3 : (bytes ",\"id\":").length = 6 := by decide +kernel
  have h4 : (bytes ",\"jsonrpc\":\"2.0\"\x7d").length = 17 := by decide +kernel
  simp only [List.length_append, h1, h2, h3, h4]
  omega

private theorem exists_dump_responseTooLarge {id : Json} {t : Bytes} (h : id.dump = some t) :
    ∃ u, (responseTooLarge id).dump = some u ∧ u.length = 93 + t.length := by
  have hid : id.isUtf8 = true := by rw [← dump_isSome, h]; rfl
  obtain ⟨u, hu⟩ := exists_dump (isUtf8_makeError hid kResponseTooLarge "Response exceeds configured limit")
  exact ⟨u, hu, length_dump_responseTooLarge h hu⟩

theorem answerable_iff {limit : Nat} {id : Json} :
    Answerable limit id ↔ ∃ i t, (i = id ∨ i = .null) ∧ (responseTooLarge i).dump = some t ∧ t.length ≤ limit := by
  have hnull : Json.null.dump = some (bytes "null") := rfl
  have hlen : (bytes "null").length = 4 := by decide +kernel
  constructor
  · rintro (h | ⟨t, ht, h⟩)
    · obtain ⟨u, hu, hl⟩ := exists_dump_responseTooLarge hnull
      exact ⟨.null, u, .inr rfl, hu, by omega⟩
    · obtain ⟨u, hu, hl⟩ := exists_dump_responseTooLarge ht
      exact ⟨id, u, .inl rfl, hu, by omega⟩
  · rintro ⟨i, u, rfl | rfl, hu, hl⟩
    · have hi : (responseTooLarge i).isUtf8 = true := by rw [← dump_isSome, hu]; rfl
      obtain ⟨t, ht⟩ := exists_dump (isUtf8_of_find? hi (find?_id_makeError i _ _))
      have := length_dump_responseTooLarge ht hu
      exact .inr ⟨t, ht, by omega⟩
    · have := length_dump_responseTooLarge hnull hu
      exact .inl (by omega)

/-- A response under a valid identifier leaves a line unless every error is too long too. -/
theorem response_of_serialized {response id : Json} {limit : Nat} {nextState : Option LifecycleState}
    {state : LifecycleState} {r : ProcessResult × LifecycleState} (h : Serialized response limit nextState state r)
    (hf : response.find? "id" = some id) (hv : isValidId id = true) :
    r.1.response.isSome ↔ ¬ TooLong limit response ∨ Answerable limit id := by
  have hi : responseId response = id := by rw [responseId, hf, Option.filter_some, if_pos hv, Option.getD_some]
  rw [answerable_iff]
  cases h with
  | sent dump fits =>
    refine iff_of_true rfl (.inl ?_)
    rintro ⟨t, ht, hl⟩
    obtain rfl := Option.some.inj (dump.symm.trans ht)
    omega
  | @replaced t i _ long choice dump fits =>
    refine iff_of_true rfl (.inr ⟨i, t, ?_, dump, fits⟩)
    rcases choice with rfl | ⟨rfl, -⟩
    · exact .inl hi
    · exact .inr rfl
  | nothing long first second =>
    refine iff_of_false Bool.noConfusion ?_
    rintro (h | ⟨i, t, hi' | rfl, ht, hle⟩)
    · exact h long
    · subst hi'
      rw [hi] at first
      obtain ⟨u, hu, hlt⟩ := first
      obtain rfl := Option.some.inj (ht.symm.trans hu)
      omega
    · obtain ⟨u, hu, hlt⟩ := second
      obtain rfl := Option.some.inj (ht.symm.trans hu)
      omega

/-- The text block of a result. -/
def textBlock (text : Bytes) : Json := .ofPairs [("type", .text "text"), ("text", .string text)]

private theorem isUtf8_textBlock {text : Bytes} : (textBlock text).isUtf8 = true ↔ Utf8.valid text = true := by
  have ht : (Json.string text).isUtf8 = Utf8.valid text := rfl
  refine ⟨fun h => ?_, fun h => isUtf8_ofPairs (by simp [ht, h])⟩
  rw [← ht]
  have hf : (textBlock text).find? "text" = some (.string text) := by simp [textBlock, List.lookup_cons]
  exact isUtf8_of_find? h hf

private theorem dump_textBlock {s t : Bytes} (h : dumpString s = some t) :
    (textBlock s).dump = some (bytes "\x7b\"text\":" ++ t ++ bytes ",\"type\":\"text\"\x7d") := by
  have h1 : keyLess (bytes "text") (bytes "type") = true := by decide +kernel
  have hm : textBlock s = .object [(bytes "text", .string s), (bytes "type", .text "text")] := by
    simp [textBlock, ofPairs, emplace, h1]
  have hk : dumpString (bytes "text") = some (bytes "\"text\"") := by decide +kernel
  have hy : dumpString (bytes "type") = some (bytes "\"type\"") := by decide +kernel
  have hv : Json.dump (.text "text") = some (bytes "\"text\"") := by decide +kernel
  have hopen : bytes "\x7b\"text\":" = bytes "\x7b" ++ bytes "\"text\"" ++ bytes ":" := by decide +kernel
  have hend : bytes ",\"type\":\"text\"\x7d" =
      bytes "," ++ bytes "\"type\"" ++ bytes ":" ++ bytes "\"text\"" ++ bytes "\x7d" := by decide +kernel
  rw [hm, dump]
  simp [dumpMembers, dump, h, hk, hy, hv, commaSeparated, hopen, hend]

example : (textBlock (bytes "ok")).dump = some (bytes "\x7b\"text\":\"ok\",\"type\":\"text\"\x7d") := by decide +kernel

private theorem le_length_dump_textBlock {text t : Bytes} (h : (textBlock text).dump = some t) :
    text.length + 25 ≤ t.length := by
  have hu : Utf8.valid text = true := isUtf8_textBlock.1 (by rw [← dump_isSome, h]; rfl)
  have hs : dumpString text = some (bytes "\"" ++ text.flatMap escapeByte ++ bytes "\"") := if_pos hu
  rw [dump_textBlock hs] at h
  obtain rfl := Option.some.inj h
  have h1 : (bytes "\x7b\"text\":").length = 8 := by decide +kernel
  have h2 : (bytes ",\"type\":\"text\"\x7d").length = 15 := by decide +kernel
  have h3 : (bytes "\"").length = 1 := by decide +kernel
  have h4 := length_le_flatMap_escapeByte text
  simp only [List.length_append, h1, h2, h3]
  omega

/-- The result of a call that did not fail. -/
def toolResult (text : Bytes) (content : Json) : Json :=
  .ofPairs [("content", .array [textBlock text]), ("isError", .boolean false), ("structuredContent", content)]

private theorem isUtf8_toolResult {text : Bytes} {content : Json} (ht : Utf8.valid text = true)
    (hc : content.isUtf8 = true) : (toolResult text content).isUtf8 = true :=
  isUtf8_ofPairs (by simp [isUtf8, isUtf8Items, isUtf8_textBlock.2 ht, hc])

private theorem le_length_dump_toolResult {text u : Bytes} {content : Json}
    (h : (toolResult text content).dump = some u) : text.length + 39 ≤ u.length := by
  have hf : (toolResult text content).find? "content" = some (.array [textBlock text]) := by
    simp [toolResult]
  obtain ⟨v, hv, hl⟩ := length_dump_of_find? h hf
  rw [dump, Option.map_eq_some_iff] at hv
  obtain ⟨ts, hts, rfl⟩ := hv
  obtain ⟨t, ht, hts⟩ := Option.bind_eq_some_iff.1 hts
  obtain rfl := Option.some.inj hts
  have hk : (bytes "content").length = 7 := by decide +kernel
  have ho : (bytes "[").length = 1 := by decide +kernel
  have hc : (bytes "]").length = 1 := by decide +kernel
  have hb := le_length_dump_textBlock ht
  simp only [commaSeparated, List.length_append, hk, ho, hc] at hl
  omega

/-- The callback writes a line for a call that did not fail exactly when its content is UTF-8 and an error would fit
the limit; the content is long enough that an error fits whenever the result does. -/
theorem Server.callbackResponse_isSome_iff (server : Server) {id content : Json} (hid : isValidId id = true)
    (hu : id.isUtf8 = true) (hl : ∀ text, content.dump = some text → 21 ≤ text.length) :
    (server.callbackResponse id ⟨false, content⟩).isSome ↔
      content.isUtf8 = true ∧ Answerable server.budget.maxResponseBytes id := by
  cases hc : content.dump with
  | none =>
    have hn : content.isUtf8 = false := by rw [← dump_isSome, hc]; rfl
    simp [Server.callbackResponse, Server.formatToolResult, hc, hn]
  | some text =>
    have hcu : content.isUtf8 = true := by rw [← dump_isSome, hc]; rfl
    have htr := isUtf8_toolResult (valid_dump hc) hcu
    obtain ⟨r, hr, hs⟩ := serializeBounded_spec (isUtf8_makeResult hu htr) server.budget none .ready
    have he : server.callbackResponse id ⟨false, content⟩ = r.1.response := by
      have hb : boundedResult (makeResult id (toolResult text content)) server.budget = some r.1 := by
        rw [boundedResult, hr, Option.map_some]
      simp only [Server.callbackResponse, Server.formatToolResult, hc, Option.bind_eq_bind, Option.bind_some]
      exact (congrArg (Option.bind · _) hb).trans rfl
    rw [he, response_of_serialized hs (find?_id_makeResult _ _) hid]
    refine ⟨fun h => ⟨hcu, h.elim (fun hfit => ?_) fun h => h⟩, fun h => .inr h.2⟩
    obtain ⟨t, ht⟩ := exists_dump hu
    obtain ⟨u, hdu⟩ := exists_dump htr
    have hm := dump_makeResult ht hdu
    have hle : _ ≤ server.budget.maxResponseBytes := Nat.le_of_not_lt fun hlt => hfit ⟨_, hm, hlt⟩
    have h1 : (bytes "\x7b\"id\":").length = 6 := by decide +kernel
    have h2 : (bytes ",\"jsonrpc\":\"2.0\",\"result\":").length = 26 := by decide +kernel
    have h3 : (bytes "\x7d").length = 1 := by decide +kernel
    have hlt := hl text hc
    have hlu := le_length_dump_toolResult hdu
    simp only [List.length_append, h1, h2, h3] at hle
    exact .inr ⟨t, ht, by omega⟩

/-! ### `proc.memory` -/

/-- An accepted call to `proc.memory` whose executor observed a process with this status text and succeeded; it was
not cancelled before it finished and did not time out. -/
structure Observes (policy : ProcessPolicy) (o : Observation) (text : Bytes) (s : State) (h : Handle) : Prop where
  accepted : .submitReturned h .accepted ∈ s.history
  tool : (s.control h).call.name = bytes "proc.memory"
  validId : isValidId (s.control h).call.requestId = true
  utf8Id : (s.control h).call.requestId.isUtf8 = true
  status : o.status = .ok text
  succeeded : (executeProcess (policy.inspectMemory · o) (s.control h).call.arguments).isError = false
  returned : .executorReturned h (executeProcess (policy.inspectMemory · o) (s.control h).call.arguments) ∈ s.history
  unmarked : ¬ MarkedBeforeFinish h s.history
  inTime : .timedOut h ∉ s.history

private theorem executeProcess_of_succeeded {inspectMemory : Bytes → Outcome ProcessMemoryResult} {arguments : Json}
    (h : (executeProcess inspectMemory arguments).isError = false) : ∃ name result,
      inspectMemory name = .ok result ∧ executeProcess inspectMemory arguments = ⟨false, processContent result⟩ := by
  unfold executeProcess at h ⊢
  split at h
  · cases h
  rename_i hf
  rw [if_neg hf]
  split at h
  · cases h
  split at h
  · cases h
  · rename_i result hr
    exact ⟨_, result, hr, rfl⟩

private theorem le_length_dump_processContent {result : ProcessMemoryResult} {text : Bytes}
    (h : (processContent result).dump = some text) : 21 ≤ text.length := by
  have hf : (processContent result).find? "smapsRollupAvailable" = some (.boolean result.smapsRollupAvailable) := by
    simp [processContent, List.lookup_cons]
  obtain ⟨t, -, hl⟩ := length_dump_of_find? h hf
  have hk : (bytes "smapsRollupAvailable").length = 20 := by decide +kernel
  omega

/-- The callback writes a line for the result of an observation exactly when the name and state lines of the status
text are UTF-8 and an error would fit the limit. -/
theorem callbackResponse_processContent (server : Server) {policy : ProcessPolicy} {o : Observation} {name text : Bytes}
    {result : ProcessMemoryResult} {id : Json} (hr : policy.inspectMemory name o = .ok result)
    (ht : o.status = .ok text) (hid : isValidId id = true) (hu : id.isUtf8 = true) :
    (server.callbackResponse id ⟨false, processContent result⟩).isSome ↔
      TextLinesUtf8 text ∧ Answerable server.budget.maxResponseBytes id := by
  rw [server.callbackResponse_isSome_iff hid hu fun _ => le_length_dump_processContent,
    isUtf8_processContent_iff hr ht]

section

variable {b : ResourceBudget} {s : State} {policy : ProcessPolicy} {o : Observation} {text : Bytes} {h : Handle}

private theorem length_writtenFor_le (server : Server) (hs : (system b).Reachable s) (h : Handle) :
    (writtenFor server h s.history).length ≤ 1 := by
  refine (List.length_filterMap_le _ _).trans ?_
  have hl : (completionIds h s.history).length = (invocations h s.history).length := by
    rw [completionIds_eq_map, List.length_map]
  rw [← hl]
  rcases (atMostOnce hs h).2 with he | ⟨he, -⟩ <;> simp [he]

private theorem Observes.answered_iff (server : Server) (hs : (system b).Reachable s) (ho : Observes policy o text s h)
    (hd : s.pc h = .done) : (writtenFor server h s.history).length = 1 ↔
      TextLinesUtf8 text ∧ Answerable server.budget.maxResponseBytes (s.control h).call.requestId := by
  obtain ⟨name, result, hr, he⟩ := executeProcess_of_succeeded ho.succeeded
  rw [← callbackResponse_processContent server hr ho.status ho.validId ho.utf8Id, ← he, writtenFor,
    invocations_eq hs hd ho.unmarked ho.inTime ho.returned]
  cases hc : server.callbackResponse (s.control h).call.requestId
      (executeProcess (policy.inspectMemory · o) (s.control h).call.arguments) <;> simp [hc]

end

/-- Never more than one response is written for an observation.  When its call has ended, which it has when the
scheduler comes to rest and eventually for good in every fair run, one response was written exactly if the name and
state lines of the status text are UTF-8 and an error would fit the response limit. -/
theorem observed_answered_iff (server : Server) (b : ResourceBudget) (policy : ProcessPolicy) (o : Observation)
    (text : Bytes) :
    (∀ s, (system b).Reachable s → ∀ h, Observes policy o text s h →
      (writtenFor server h s.history).length ≤ 1 ∧
      (s.pc h = .done ∨ ¬ s.Enabled →
        ((writtenFor server h s.history).length = 1 ↔
          TextLinesUtf8 text ∧ Answerable server.budget.maxResponseBytes (s.control h).call.requestId))) ∧
    ∀ r : FairRun b, ∀ n h, .submitReturned h .accepted ∈ (r.state n).history →
      ∃ m, n ≤ m ∧ ∀ k, m ≤ k → Observes policy o text (r.state k) h →
        ((writtenFor server h (r.state k).history).length = 1 ↔
          TextLinesUtf8 text ∧ Answerable server.budget.maxResponseBytes ((r.state k).control h).call.requestId) := by
  refine ⟨fun s hs h ho => ⟨length_writtenFor_le server hs h, fun hd => ?_⟩, fun r n h ha => ?_⟩
  · rcases hd with hd | hr
    · exact ho.answered_iff server hs hd
    · exact ho.answered_iff server hs (done_of_atRest hs hr (enqueued_of_accepted hs ho.accepted))
  · obtain ⟨m, hm, hd⟩ := eventually_done r ha
    exact ⟨m, hm, fun k hk ho => ho.answered_iff server (r.toRun.reachable k) (hd k hk)⟩

/-- One client submits a call to `proc.memory` for the process `self`, and a worker runs it and answers it. -/
private def observationRun (result : ToolExecutionResult) : List Action :=
  .invoke (.client 0) (.submit ⟨.numberInteger 1, bytes "proc.memory", .ofPairs [("process", .text "self")]⟩) ::
    List.replicate 4 (.thread (.client 0) true none) ++ List.replicate 10 (.worker 0 (.returned result))

/-- One process is configured. -/
def selfPolicy : ProcessPolicy where
  processes := [⟨bytes "self", 7, 0, 100, true⟩]
  maxNameBytes := 64
  valid := by decide +kernel

/-- The `status` text of a running process with this name. -/
def statusOf (name : Bytes) : Bytes :=
  bytes "Name:\t" ++ name ++ bytes "\nState:\tR (running)\nUid:\t0\t0\t0\t0\nThreads:\t1\n"

def observationOf (name : Bytes) : Observation where
  stopReason := .none
  exitedBefore := false
  statBefore := .ok (bytes "7 (x) R 1 2 3 4 5 6 7 8 9 10 11 12 13 14 15 16 17 18 100 0\n")
  status := .ok (statusOf name)
  effectiveUid := 0
  pageSize := 4096
  statm := .ok (bytes "1 1 1 1 0 1 0\n")
  smapsRollup := .error ⟨.permissionDenied, []⟩
  statAfter := .ok (bytes "7 (x) R 1 2 3 4 5 6 7 8 9 10 11 12 13 14 15 16 17 18 100 0\n")
  exitedAfter := false

private theorem exists_observes (name : Bytes) (hr : (executeProcess (selfPolicy.inspectMemory · (observationOf name))
    (.ofPairs [("process", .text "self")])).isError = false) :
    ∃ s, (system conservativeBudget).Reachable s ∧ Observes selfPolicy (observationOf name) (statusOf name) s 0 ∧
      s.pc 0 = .done := by
  have hrun : ∃ s, (machine conservativeBudget).run (initial conservativeBudget) (observationRun
      (executeProcess (selfPolicy.inspectMemory · (observationOf name)) (.ofPairs [("process", .text "self")]))) =
      some s ∧ s.pc 0 = .done ∧
      (s.control 0).call = ⟨.numberInteger 1, bytes "proc.memory", .ofPairs [("process", .text "self")]⟩ ∧
      s.history = [.completionReturned 0, .completionInvoked 0 (.numberInteger 1) _, .finished 0,
        .executorReturned 0 (executeProcess (selfPolicy.inspectMemory · (observationOf name))
          (.ofPairs [("process", .text "self")])), .executorStarted 0, .submitReturned 0 .accepted, .admitted 0] :=
    ⟨_, rfl, rfl, rfl, rfl⟩
  obtain ⟨s, hs, hd, hc, hh⟩ := hrun
  exact ⟨s, reachable_of_run hs,
    { accepted := by rw [hh]; simp
      tool := by rw [hc]
      validId := by rw [hc]; rfl
      utf8Id := by rw [hc]; rfl
      status := rfl
      succeeded := by rw [hc]; exact hr
      returned := by rw [hc, hh]; simp
      unmarked := by
        rw [hh]
        simp only [markedBeforeFinish_cons, marked_cons, reduceCtorEq, true_and, false_and, false_or, not_or]
        exact ⟨⟨nofun, nofun, nofun, nofun, nofun⟩, not_markedBeforeFinish rfl⟩
      inTime := by rw [hh]; simp }, hd⟩

/-- A process whose name is one byte that is not UTF-8: its call ends and no response is written. -/
theorem unanswered_of_name :
    ∃ s, (system conservativeBudget).Reachable s ∧
      Observes selfPolicy (observationOf [0xFF]) (statusOf [0xFF]) s 0 ∧ s.pc 0 = .done ∧
      writtenFor (.create conservativeBudget none) 0 s.history = [] := by
  obtain ⟨s, hs, ho, hd⟩ := exists_observes [0xFF] (by decide +kernel)
  refine ⟨s, hs, ho, hd, List.length_eq_zero_iff.1 ?_⟩
  have hle := length_writtenFor_le (.create conservativeBudget none) hs 0
  have hne : (writtenFor (.create conservativeBudget none) 0 s.history).length ≠ 1 := by
    intro hl
    have ht := ((ho.answered_iff _ hs hd).1 hl).1
    have hn : ¬ Utf8.valid (bytes "Name:\t" ++ [0xFF]) = true := by decide +kernel
    exact hn (ht _ (by decide +kernel) (.inl (by decide +kernel)))
  omega

/-- A process named `init`. -/
theorem observed_init :
    ∃ s, (system conservativeBudget).Reachable s ∧
      Observes selfPolicy (observationOf (bytes "init")) (statusOf (bytes "init")) s 0 ∧ s.pc 0 = .done ∧
      (writtenFor (.create conservativeBudget none) 0 s.history).length = 1 := by
  obtain ⟨s, hs, ho, hd⟩ := exists_observes (bytes "init") (by decide +kernel)
  have hl : ∀ line ∈ splitLines (statusOf (bytes "init")), Utf8.valid line = true := by decide +kernel
  exact ⟨s, hs, ho, hd, (((observed_answered_iff _ _ _ _ _).1 s hs 0 ho).2 (.inl hd)).2
    ⟨fun line hm _ => hl line hm, .inl (by decide +kernel)⟩⟩

end NativeMcp
