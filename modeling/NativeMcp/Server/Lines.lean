import NativeMcp.Server.Model

/-!
# What a line can do

Every result about the protocol server is read off one case analysis: a readable line does one of the things of
`MessageCase` (`acceptMessage_case`), any other line gets an error without an identifier (`LineCase`,
`acceptLine_case`).  What an answer becomes under a response limit is `Serialized` (`serializeBounded_spec`).
-/

namespace NativeMcp

open JsonRpc Json

/-! ### Serialization under a limit -/

/-- The value is longer than the limit when it is serialized. -/
def TooLong (limit : Nat) (j : Json) : Prop := ∃ t, j.dump = some t ∧ limit < t.length

/-- What the serializer makes of a response: it is sent and the state advances, or it is replaced by a bounded error
under its identifier or none, or nothing can be sent; the state advances in the first case only. -/
inductive Serialized (response : Json) (limit : Nat) (nextState : Option LifecycleState) (state : LifecycleState) :
    ProcessResult × LifecycleState → Prop
  | sent {t : Bytes} (dump : response.dump = some t) (fits : t.length ≤ limit) :
      Serialized response limit nextState state (⟨some t, none⟩, nextState.getD state)
  | replaced {t : Bytes} {id : Json} {diagnostic : Option String} (long : TooLong limit response)
      (choice : id = responseId response ∨ id = .null ∧ TooLong limit (responseTooLarge (responseId response)))
      (dump : (responseTooLarge id).dump = some t) (fits : t.length ≤ limit) :
      Serialized response limit nextState state (⟨some t, diagnostic⟩, state)
  | nothing {diagnostic : Option String} (long : TooLong limit response)
      (first : TooLong limit (responseTooLarge (responseId response)))
      (second : TooLong limit (responseTooLarge .null)) :
      Serialized response limit nextState state (⟨none, diagnostic⟩, state)

theorem isUtf8_responseId {response : Json} (h : response.isUtf8 = true) : (responseId response).isUtf8 = true := by
  rw [responseId]
  cases hf : (response.find? "id").filter isValidId with
  | none => rfl
  | some id => exact isUtf8_of_find? h (Option.filter_eq_some_iff.1 hf).1

/-- A UTF-8 response is always serialized. -/
theorem serializeBounded_spec {response : Json} (h : response.isUtf8 = true) (budget : ResourceBudget)
    (nextState : Option LifecycleState) (state : LifecycleState) :
    ∃ r, serializeBounded response budget nextState state = some r ∧
      Serialized response budget.maxResponseBytes nextState state r := by
  obtain ⟨t, ht⟩ := exists_dump h
  obtain ⟨u, hu⟩ := exists_dump (isUtf8_makeError (isUtf8_responseId h) kResponseTooLarge
    "Response exceeds configured limit")
  obtain ⟨v, hv⟩ := exists_dump (isUtf8_makeError isUtf8_null kResponseTooLarge
    "Response exceeds configured limit")
  simp only [serializeBounded, ht, responseTooLarge, hu, hv, Option.pure_def, Option.bind_eq_bind, Option.bind_some]
  by_cases h1 : t.length ≤ budget.maxResponseBytes
  · rw [if_pos h1]
    exact ⟨_, rfl, .sent ht h1⟩
  rw [if_neg h1]
  by_cases h2 : u.length ≤ budget.maxResponseBytes
  · rw [if_pos h2]
    exact ⟨_, rfl, .replaced ⟨t, ht, by omega⟩ (.inl rfl) hu h2⟩
  rw [if_neg h2]
  by_cases h3 : v.length ≤ budget.maxResponseBytes
  · rw [if_pos h3]
    exact ⟨_, rfl, .replaced ⟨t, ht, by omega⟩ (.inr ⟨rfl, u, hu, by omega⟩) hv h3⟩
  · rw [if_neg h3]
    exact ⟨_, rfl, .nothing ⟨t, ht, by omega⟩ ⟨u, hu, by omega⟩ ⟨v, hv, by omega⟩⟩

/-- Without a next state the state plays no part in serialization. -/
theorem serializeBounded_none (response : Json) (budget : ResourceBudget) (state : LifecycleState) :
    serializeBounded response budget none state = (boundedResult response budget).map fun p => (p, state) := by
  unfold boundedResult serializeBounded
  cases response.dump with
  | none => rfl
  | some t =>
    cases (responseTooLarge (responseId response)).dump <;> cases (responseTooLarge .null).dump <;>
      simp <;> split_ifs <;> rfl

namespace Server

/-- An answer to a UTF-8 response changes nothing of the server but its state. -/
theorem respond_spec {response : Json} (h : response.isUtf8 = true) (server : Server)
    (nextState : Option LifecycleState) : ∃ p state', server.respond response nextState =
      some ({ immediate := some p }, { server with state := state' }) ∧
      Serialized response server.budget.maxResponseBytes nextState server.state (p, state') := by
  obtain ⟨⟨p, state'⟩, hr, hs⟩ := serializeBounded_spec h server.budget nextState server.state
  refine ⟨p, state', ?_, hs⟩
  rw [respond, hr]
  simp

end Server

/-! ### Messages -/

/-- A well-formed `notifications/initialized`. -/
structure IsInitialized (m : Json) : Prop where
  isObject : m.isObject = true
  noId : m.find? "id" = none
  jsonrpc : m.find? "jsonrpc" = some (.text "2.0")
  method : m.find? "method" = some (.text "notifications/initialized")
  params : validOptionalObjectParams m = true

/-- A message without an identifier whose method is a string. -/
structure IsNotification (m : Json) : Prop where
  isObject : m.isObject = true
  noId : m.find? "id" = none
  method : (m.find? "method").any isString = true

/-- A message with a valid identifier. -/
structure IsRequest (m id : Json) : Prop where
  id_eq : m.find? "id" = some id
  valid : isValidId id = true

/-- What a server can do with a message. -/
inductive MessageCase (server : Server) (m : Json) : Option (LineAction × Server) → Prop
  | error {id : Json} (code : Int) (message : String) (origin : id = .null ∨ IsRequest m id)
      (request : ∀ i, IsRequest m i → id = i) (notification : ¬ IsNotification m) :
      MessageCase server m (server.respond (makeError id code message) none)
  | opened {id : Json} (request : IsRequest m id) (state : server.state = .uninitialized) :
      MessageCase server m
        (server.respond (makeResult id initializeResult) (some .awaitingInitializedNotification))
  | ping {id : Json} (request : IsRequest m id) :
      MessageCase server m (server.respond (makeResult id (.object [])) none)
  | list {id : Json} {definitions : List Json} (request : IsRequest m id) (utf8 : isUtf8Items definitions = true) :
      MessageCase server m (server.respond (makeResult id (.ofPairs [("tools", .array definitions)])) none)
  | ignored (diagnostic : String) (notification : IsNotification m)
      (other : server.state = .awaitingInitializedNotification → ¬ IsInitialized m) :
      MessageCase server m (some (server.ignore diagnostic))
  | initialized (notification : IsInitialized m) (state : server.state = .awaitingInitializedNotification) :
      MessageCase server m (some ({ immediate := some ⟨none, none⟩ }, { server with state := .ready }))
  | call {id : Json} {name : Bytes} {arguments : Json} (request : IsRequest m id) (state : server.state = .ready)
      (known : server.tools.any (·.knowsTool name) = true) (object : arguments.isObject = true) :
      MessageCase server m (some ({ toolCall := some ⟨id, name, arguments⟩ }, server))
  | cancellation (notice : CancellationNotice) (notification : IsNotification m) (other : ¬ IsInitialized m) :
      MessageCase server m (some ({ cancellation := some notice }, server))

/-- A `notifications/cancelled` that the server acts on. -/
structure IsCancellation (m : Json) : Prop where
  noId : m.find? "id" = none
  jsonrpc : m.find? "jsonrpc" = some (.text "2.0")
  method : m.find? "method" = some (.text "notifications/cancelled")
  params : ∃ params, m.find? "params" = some params ∧ params.isObject = true ∧
    (∃ id, params.find? "requestId" = some id ∧ isValidId id = true) ∧ (params.find? "reason").all isString = true

theorem IsInitialized.isNotification {m : Json} (h : IsInitialized m) : IsNotification m :=
  ⟨h.isObject, h.noId, by rw [h.method]; rfl⟩

theorem IsRequest.isUtf8 {m id : Json} (h : IsRequest m id) (hm : m.isUtf8 = true) : id.isUtf8 = true :=
  isUtf8_of_find? hm h.id_eq

theorem IsRequest.not_notification {m id : Json} (h : IsRequest m id) : ¬ IsNotification m :=
  fun hn => by cases h.id_eq.symm.trans hn.noId

namespace Server

variable {server : Server} {m : Json}

/-- An error answers a request under the request's identifier. -/
private theorem error_case {id : Json} (h : IsRequest m id) (code : Int) (message : String) :
    MessageCase server m (server.respond (makeError id code message) none) :=
  .error code message (.inr h) (fun _ hi => Option.some.inj (h.id_eq.symm.trans hi.id_eq)) h.not_notification

private theorem handleInitialize_case {id : Json} (h : IsRequest m id) :
    MessageCase server m (server.conclude (handleInitialize m id server.state)) := by
  unfold handleInitialize
  split
  · exact error_case h ..
  · rename_i hstate
    split
    · exact error_case h ..
    · split
      · exact error_case h ..
      · exact .opened h (not_not.1 hstate)

private theorem handleToolsList_case {id : Json} (h : IsRequest m id) :
    MessageCase server m (server.conclude (handleToolsList m id server.state server.tools)) := by
  unfold handleToolsList
  split
  · exact error_case h ..
  split
  · exact error_case h ..
  split
  · exact error_case h ..
  · cases server.tools with
    | none => exact .list h rfl
    | some tools =>
      have hu := isUtf8_toolDefinitions tools
      rw [ToolService.toolDefinitions, isUtf8] at hu
      exact .list h hu

private theorem of_prepareToolsCall_error {id : Json} {state : LifecycleState} {tools : Option ToolService}
    {handled : HandlerResult} (h : prepareToolsCall m id state tools = .error handled) :
    ∃ code message, handled = requestError id code message := by
  unfold prepareToolsCall at h
  split at h
  · exact ⟨_, _, (Except.error.inj h).symm⟩
  split at h
  · exact ⟨_, _, (Except.error.inj h).symm⟩
  split at h
  · exact ⟨_, _, (Except.error.inj h).symm⟩
  split at h
  · exact ⟨_, _, (Except.error.inj h).symm⟩
  dsimp only at h
  split at h
  · exact ⟨_, _, (Except.error.inj h).symm⟩
  split at h
  · exact ⟨_, _, (Except.error.inj h).symm⟩
  · cases h

private theorem of_prepareToolsCall_ok {id : Json} {state : LifecycleState} {tools : Option ToolService}
    {call : PreparedToolCall} (h : prepareToolsCall m id state tools = .ok call) :
    call.requestId = id ∧ state = .ready ∧ tools.any (·.knowsTool call.name) = true ∧
      call.arguments.isObject = true := by
  unfold prepareToolsCall at h
  split at h
  · cases h
  rename_i hstate
  split at h
  · cases h
  rename_i params _
  split at h
  · cases h
  split at h
  · cases h
  dsimp only at h
  split at h
  · cases h
  rename_i harguments
  split at h
  · cases h
  rename_i hknown
  cases h
  refine ⟨rfl, not_not.1 hstate, by simpa using hknown, ?_⟩
  cases ha : params.find? "arguments" with
  | none => rfl
  | some arguments => simpa [ha] using harguments

private theorem dispatch_case {method : Bytes} (hobject : m.isObject = true)
    (hid : (m.find? "id").all isValidId = true) (hmethod : m.find? "method" = some (.string method))
    (hrpc : m.find? "jsonrpc" = some (.text "2.0")) :
    MessageCase server m (server.conclude (dispatch method m ((m.find? "id").getD .null) (m.find? "id").isNone
      server.state server.tools)) := by
  cases hi : m.find? "id" with
  | none =>
    have hn : IsNotification m := ⟨hobject, hi, by rw [hmethod]; rfl⟩
    -- a notification is ignored unless it is the awaited one
    have ignored (d : String) (h : server.state = .awaitingInitializedNotification → ¬ IsInitialized m) :
        MessageCase server m (server.conclude (notificationDiagnostic d)) := .ignored d hn h
    have other (hne : method ≠ bytes "notifications/initialized") :
        server.state = .awaitingInitializedNotification → ¬ IsInitialized m :=
      fun _ h => hne (Json.string.inj (Option.some.inj (hmethod.symm.trans h.method)))
    unfold dispatch
    simp only [Option.isNone_none, if_true, Bool.not_true, Bool.false_eq_true, if_false]
    split
    · rename_i hm
      split <;> exact ignored _ (other (by simp [hm]))
    split
    · rename_i hm
      exact ignored _ (other (by simp [hm]))
    split
    · rename_i hm
      split
      · rename_i hp
        exact ignored _ fun _ h => by simp [h.params] at hp
      split
      · rename_i hs
        exact ignored _ fun h => absurd h hs
      · rename_i hp hs
        have hi' : IsInitialized m := ⟨hobject, hi, hrpc, by rw [hmethod, hm]; rfl, by simpa using hp⟩
        exact .initialized hi' (not_not.1 hs)
    · rename_i hm
      split
      · exact ignored _ (other hm)
      split <;> exact ignored _ (other hm)
  | some id =>
    have hr : IsRequest m id := ⟨hi, by simpa [hi] using hid⟩
    unfold dispatch
    simp only [Option.isNone_some, Bool.false_eq_true, if_false, Bool.not_false, if_true, Option.getD_some, and_false]
    split
    · split
      · exact error_case hr ..
      · exact .ping hr
    split
    · exact handleInitialize_case hr
    split
    · exact error_case hr ..
    split
    · exact handleToolsList_case hr
    · exact error_case hr ..

private theorem acceptCancellation_case {method : Bytes} (hobject : m.isObject = true)
    (hid : (m.find? "id").all isValidId = true) (hmethod : m.find? "method" = some (.string method))
    (hm : method = bytes "notifications/cancelled") :
    MessageCase server m
      (server.acceptCancellation m ((m.find? "id").getD .null) (m.find? "id").isNone) := by
  have other : ¬ IsInitialized m := fun h => by
    have he := Json.string.inj (Option.some.inj (hmethod.symm.trans h.method))
    simp [hm] at he
  unfold acceptCancellation
  cases hi : m.find? "id" with
  | none =>
    have hn : IsNotification m := ⟨hobject, hi, by rw [hmethod]; rfl⟩
    simp only [Option.isNone_none, Bool.not_true, Bool.false_eq_true, if_false]
    split
    · exact .ignored _ hn fun _ => other
    split
    · exact .ignored _ hn fun _ => other
    split
    · exact .ignored _ hn fun _ => other
    · exact .cancellation _ hn other
  | some id =>
    have hr : IsRequest m id := ⟨hi, by simpa [hi] using hid⟩
    exact error_case hr ..

private theorem acceptMethod_case {method : Bytes} (hobject : m.isObject = true)
    (hid : (m.find? "id").all isValidId = true) (hmethod : m.find? "method" = some (.string method))
    (hrpc : m.find? "jsonrpc" = some (.text "2.0")) :
    MessageCase server m (server.acceptMethod method m ((m.find? "id").getD .null) (m.find? "id").isNone) := by
  unfold acceptMethod
  split
  · rename_i hm
    obtain ⟨id, hi⟩ : ∃ id, m.find? "id" = some id := by
      cases hi : m.find? "id" with
      | none => simp [hi] at hm
      | some id => exact ⟨id, rfl⟩
    have hr : IsRequest m id := ⟨hi, by simpa [hi] using hid⟩
    rw [hi, Option.getD_some]
    split
    · rename_i handled hp
      obtain ⟨code, message, rfl⟩ := of_prepareToolsCall_error hp
      exact error_case hr ..
    · rename_i call hp
      obtain ⟨rfl, hstate, hknown, hargs⟩ := of_prepareToolsCall_ok hp
      exact .call hr hstate hknown hargs
  · split
    · rename_i hm
      exact acceptCancellation_case hobject hid hmethod hm
    · exact dispatch_case hobject hid hmethod hrpc

/-- An error without an identifier. -/
private theorem nullError_case (h : ∀ i, ¬ IsRequest m i) (hn : ¬ IsNotification m) (code : Int) (message : String) :
    MessageCase server m (server.respond (makeError .null code message) none) :=
  .error code message (.inl rfl) (fun i hi => absurd hi (h i)) hn

theorem acceptMessage_case (server : Server) (m : Json) : MessageCase server m (server.acceptMessage m) := by
  unfold acceptMessage
  split
  · rename_i ho
    have hf (key : String) : m.find? key = none := by
      cases m with
      | object _ => simp [Json.isObject] at ho
      | _ => rfl
    exact nullError_case (fun i h => by cases h.id_eq.symm.trans (hf "id")) (fun h => by simp [h.isObject] at ho) ..
  rename_i ho
  have hobject : m.isObject = true := by simpa using ho
  dsimp only
  split
  · rename_i hv
    refine nullError_case (fun i h => ?_) (fun h => ?_) ..
    · simp [h.id_eq, h.valid] at hv
    · simp [h.noId] at hv
  rename_i hv
  have hid : (m.find? "id").all isValidId = true := by simpa using hv
  -- the envelope is wrong: the error has the identifier of a request
  have envelope (hn : ¬ IsNotification m) : MessageCase server m
      (server.respond (makeError ((m.find? "id").getD .null) kInvalidRequest "Invalid Request") none) := by
    cases hi : m.find? "id" with
    | none => exact nullError_case (fun i h => by cases h.id_eq.symm.trans hi) hn ..
    | some id => exact error_case ⟨hi, by simpa [hi] using hid⟩ ..
  split
  · rename_i hm
    refine envelope fun h => ?_
    have hs := h.method
    cases hf : m.find? "method" with
    | none => simp [hf] at hs
    | some v => cases v <;> simp [hf, string?, isString] at hm hs
  · rename_i method hm
    have hmethod : m.find? "method" = some (.string method) := by
      cases hf : m.find? "method" with
      | none => simp [hf] at hm
      | some v => cases v <;> simp_all [string?]
    split
    · rename_i hrpc
      split
      · rename_i hn
        have hn' : m.find? "id" = none := by simpa using hn
        refine .ignored _ ⟨hobject, hn', by rw [hmethod]; rfl⟩ fun _ h => ?_
        simp [h.jsonrpc, isText, Json.text] at hrpc
      · rename_i hn
        exact envelope fun h => by simp [h.noId] at hn
    · rename_i hrpc
      refine acceptMethod_case hobject hid hmethod ?_
      cases hf : m.find? "jsonrpc" with
      | none => simp [hf] at hrpc
      | some v => cases v <;> simp_all [isText, Json.text]

/-! ### Cancellations -/

private theorem respond_cancellation {response : Json} {nextState : Option LifecycleState}
    {diagnostic : Option String} {a : LineAction} {server' : Server}
    (h : server.respond response nextState diagnostic = some (a, server')) : a.cancellation = none := by
  obtain ⟨r, -, h⟩ := Option.map_eq_some_iff.1 h
  cases h
  rfl

private theorem conclude_cancellation {handled : HandlerResult} {a : LineAction} {server' : Server}
    (h : server.conclude handled = some (a, server')) : a.cancellation = none := by
  unfold conclude at h
  split at h
  · cases h; rfl
  · exact respond_cancellation h

/-- Only a well-formed notification cancels, and only a call with a valid identifier. -/
theorem isCancellation_of_acceptMessage {a : LineAction} {server' : Server} {notice : CancellationNotice}
    (h : server.acceptMessage m = some (a, server')) (hc : a.cancellation = some notice) :
    IsCancellation m ∧ isValidId notice.requestId = true := by
  unfold acceptMessage at h
  split at h
  · cases (respond_cancellation h).symm.trans hc
  dsimp only at h
  split at h
  · cases (respond_cancellation h).symm.trans hc
  split at h
  · cases (respond_cancellation h).symm.trans hc
  rename_i method hm
  split at h
  · split at h
    · cases h; cases hc
    · cases (respond_cancellation h).symm.trans hc
  rename_i hrpc
  unfold acceptMethod at h
  split at h
  · split at h
    · cases (conclude_cancellation h).symm.trans hc
    · cases h; cases hc
  split at h
  · rename_i hcancelled
    unfold acceptCancellation at h
    split at h
    · cases (respond_cancellation h).symm.trans hc
    rename_i hn
    split at h
    · cases h; cases hc
    rename_i params hp
    split at h
    · cases h; cases hc
    rename_i id hid
    split at h
    · cases h; cases hc
    rename_i hreason
    have hn : m.find? "id" = none := by simpa using hn
    have hv : m.find? "jsonrpc" = some (.text "2.0") := by
      cases hf : m.find? "jsonrpc" with
      | none => simp [hf] at hrpc
      | some v => cases v <;> simp_all [isText, Json.text]
    have hmethod : m.find? "method" = some (.text "notifications/cancelled") := by
      cases hf : m.find? "method" with
      | none => simp [hf] at hm
      | some v => cases v <;> simp_all [string?, Json.text]
    obtain ⟨hp, hobject⟩ := Option.filter_eq_some_iff.1 hp
    obtain ⟨hid, hvalid⟩ := Option.filter_eq_some_iff.1 hid
    cases h
    cases hc
    exact ⟨⟨hn, hv, hmethod, params, hp, hobject, ⟨id, hid, hvalid⟩, by simpa using hreason⟩, hvalid⟩
  · cases (conclude_cancellation h).symm.trans hc

end Server

/-! ### Lines -/

/-- The line is within the request limit, passes the preflight and is read as this value. -/
structure Readable (N : Nlohmann) (server : Server) (line : Bytes) (m : Json) : Prop where
  fits : line.length ≤ server.budget.maxRequestBytes
  preflight : preflightJson N line kProtocolJsonLimits = .ok
  parse : N.parse line = some m

/-- A line that is not readable gets an error without an identifier. -/
inductive LineCase (N : Nlohmann) (server : Server) (line : Bytes) : Option (LineAction × Server) → Prop
  | unreadable (code : Int) (message : String) (h : ∀ m, ¬ Readable N server line m) :
      LineCase N server line (server.respond (makeError .null code message) none)
  | message {m : Json} {r : Option (LineAction × Server)} (readable : Readable N server line m)
      (h : MessageCase server m r) : LineCase N server line r

theorem Server.acceptLine_case (N : Nlohmann) (server : Server) (line : Bytes) :
    LineCase N server line (server.acceptLine N line) := by
  unfold acceptLine
  split
  · rename_i hl
    have he : server.requestTooLarge.map (fun r => (({ immediate := some r } : LineAction), server)) =
        server.respond (makeError .null kRequestTooLarge "Request exceeds configured limit") none := by
      rw [requestTooLarge, respond, serializeBounded_none]
      cases boundedResult (makeError .null kRequestTooLarge "Request exceeds configured limit") server.budget <;> simp
    rw [he]
    exact .unreadable _ _ fun m h => absurd h.fits (by omega)
  rename_i hl
  split
  · rename_i hp
    split
    · rename_i hn
      exact .unreadable _ _ fun m h => by cases hn.symm.trans h.parse
    · rename_i m hm
      exact .message ⟨by omega, hp, hm⟩ (acceptMessage_case server m)
  · rename_i hp
    exact .unreadable _ _ fun m h => by cases hp.symm.trans h.preflight
  · rename_i hp _
    exact .unreadable _ _ fun m h => hp h.preflight

end NativeMcp
