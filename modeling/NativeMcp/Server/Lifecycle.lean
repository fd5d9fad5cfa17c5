import NativeMcp.Lib.TransitionSystem
import NativeMcp.Server.Lines

/-!
# The lifecycle of a connection

A server moves from uninitialized to awaiting the client's notification to ready, and never back (`lifecycle`).  It
starts to wait exactly when the initialize result itself was emitted: no other text that `acceptLine` emits is one
(`not_isInitializeResult_of_error` and its siblings), so an oversized result that was replaced does not count.
-/

namespace NativeMcp

open JsonRpc Json

/-- The text a line is answered with. -/
def LineAction.response (a : LineAction) : Option Bytes := a.immediate.bind (·.response)

/-- The text of a successful `initialize` result. -/
def IsInitializeResult (r : Bytes) : Prop :=
  ∃ id, isValidId id = true ∧ (makeResult id initializeResult).dump = some r

/-! ### Telling the initialize result from the other texts -/

private theorem third_last (x y : Bytes) (h : 2 < y.length) : (x ++ y).reverse[2]? = y.reverse[2]? := by
  rw [List.reverse_append, List.getElem?_append_left (by simpa using h)]

/-- The last bytes of a result's text are those of the result and a closing brace. -/
private theorem third_last_of_result {id result : Json} {r x : Bytes} {y : String}
    (h : (makeResult id result).dump = some r) (hr : result.dump = some (x ++ bytes y))
    (hy : 2 < (bytes y ++ bytes "\x7d").length) : r.reverse[2]? = (bytes y ++ bytes "\x7d").reverse[2]? := by
  cases ht : id.dump with
  | none =>
    have hu : (makeResult id result).isUtf8 = true := by rw [← dump_isSome, h]; rfl
    have hi := (dump_isSome id).trans (isUtf8_of_find? hu (find?_id_makeResult id result))
    simp [ht] at hi
  | some t =>
    obtain rfl := Option.some.inj ((dump_makeResult ht hr).symm.trans h)
    rw [List.append_assoc, List.append_assoc x, ← List.append_assoc]
    exact third_last _ _ hy

private theorem isUtf8_initializeResult : initializeResult.isUtf8 = true := by decide +kernel

example : initializeResult.dump.isSome = true := by decide +kernel

private theorem third_last_of_isInitializeResult {r : Bytes} (h : IsInitializeResult r) :
    r.reverse[2]? = some 0x7D := by
  obtain ⟨id, -, h⟩ := h
  have hd : initializeResult.dump.map (fun t => t.drop (t.length - 2)) = some (bytes "\x7d\x7d") := by
    decide +kernel
  obtain ⟨u, hu, hy⟩ := Option.map_eq_some_iff.1 hd
  have hr : initializeResult.dump = some (u.take (u.length - 2) ++ bytes "\x7d\x7d") := by
    rw [hu, ← hy, List.take_append_drop]
  rw [third_last_of_result h hr (by decide +kernel)]
  decide +kernel

theorem not_isInitializeResult_of_error {id : Json} {code : Int} {message : String} {r : Bytes}
    (h : (makeError id code message).dump = some r) : ¬ IsInitializeResult r := by
  rintro ⟨id', -, h'⟩
  obtain ⟨x, hx⟩ := isPrefix_dump_makeError h
  obtain ⟨u, hu⟩ : ∃ u, initializeResult.dump = some u := exists_dump isUtf8_initializeResult
  obtain ⟨t, ht⟩ : ∃ t, id'.dump = some t := by
    refine exists_dump (isUtf8_of_find? ?_ (find?_id_makeResult id' initializeResult))
    rw [← dump_isSome, h']
    rfl
  have hr := Option.some.inj ((dump_makeResult ht hu).symm.trans h')
  have h2 : r[2]? = (bytes "\x7b\"error\":")[2]? := by
    rw [← hx, List.getElem?_append_left (by decide +kernel)]
  have h3 : r[2]? = (bytes "\x7b\"id\":")[2]? := by
    rw [← hr, List.append_assoc, List.append_assoc, List.append_assoc, List.getElem?_append_left (by decide +kernel)]
  exact absurd (h2.symm.trans h3) (by decide +kernel)

private theorem not_isInitializeResult_of_ping {id : Json} {r : Bytes}
    (h : (makeResult id (.object [])).dump = some r) : ¬ IsInitializeResult r := by
  intro h'
  have h2 := third_last_of_result (x := []) (y := "\x7b\x7d") h (by decide +kernel) (by decide +kernel)
  exact absurd ((third_last_of_isInitializeResult h').symm.trans h2) (by decide +kernel)

example : (makeResult (.numberUnsigned 1) (.object [])).dump.isSome = true := by decide +kernel

private theorem not_isInitializeResult_of_list {id : Json} {definitions : List Json} {r : Bytes}
    (h : (makeResult id (.ofPairs [("tools", .array definitions)])).dump = some r) : ¬ IsInitializeResult r := by
  intro h'
  have hu : (makeResult id (.ofPairs [("tools", .array definitions)])).isUtf8 = true := by rw [← dump_isSome, h]; rfl
  have hl : (Json.ofPairs [("tools", .array definitions)]).isUtf8 = true :=
    isUtf8_of_find? hu (show Json.find? _ "result" = some _ by simp [makeResult, List.lookup_cons])
  have ha : isUtf8 (.array definitions) = true :=
    isUtf8_of_find? hl (show Json.find? _ "tools" = some _ by simp)
  obtain ⟨ts, hts⟩ := Option.isSome_iff_exists.1 ((dumpItems_isSome definitions).trans ha)
  have hk : dumpString (bytes "tools") = some (bytes "\"tools\"") := by decide +kernel
  have hr : (Json.ofPairs [("tools", .array definitions)]).dump =
      some (bytes "\x7b" ++ bytes "\"tools\"" ++ bytes ":" ++ bytes "[" ++ commaSeparated ts ++ bytes "]\x7d") := by
    have he : bytes "]\x7d" = bytes "]" ++ bytes "\x7d" := by decide +kernel
    simp [ofPairs, emplace, dump, dumpMembers, hk, hts, commaSeparated, he]
  have h2 := third_last_of_result (y := "]\x7d") h hr (by decide +kernel)
  exact absurd ((third_last_of_isInitializeResult h').symm.trans h2) (by decide +kernel)

/-! ### One line -/

/-- What a line may do to the lifecycle. -/
structure LifecycleLaw (N : Nlohmann) (server : Server) (line : Bytes) (a : LineAction) (server' : Server) :
    Prop where
  budget : server'.budget = server.budget
  tools : server'.tools = server.tools
  moves : server'.state = server.state ∨
    server.state = .uninitialized ∧ server'.state = .awaitingInitializedNotification ∨
    server.state = .awaitingInitializedNotification ∧ server'.state = .ready
  awaiting : server'.state = .awaitingInitializedNotification ∧ server'.state ≠ server.state ↔
    ∃ r, a.response = some r ∧ IsInitializeResult r
  ready : server'.state = .ready ∧ server'.state ≠ server.state ↔
    server.state = .awaitingInitializedNotification ∧ ∃ m, Readable N server line m ∧ IsInitialized m
  call : ∀ c, a.toolCall = some c → server.state = .ready ∧ server.tools.any (·.knowsTool c.name) = true ∧
    c.arguments.isObject = true

/-- The line is the notification the server waits for. -/
private def Awaited (N : Nlohmann) (server : Server) (line : Bytes) : Prop :=
  server.state = .awaitingInitializedNotification ∧ ∃ m, Readable N server line m ∧ IsInitialized m

/-- A line after which the state is the same. -/
private theorem LifecycleLaw.of_same {N : Nlohmann} {server : Server} {line : Bytes} {a : LineAction}
    (hr : ∀ r, a.response = some r → ¬ IsInitializeResult r) (hn : ¬ Awaited N server line)
    (hc : ∀ c, a.toolCall = some c → server.state = .ready ∧ server.tools.any (·.knowsTool c.name) = true ∧
      c.arguments.isObject = true) : LifecycleLaw N server line a server where
  budget := rfl
  tools := rfl
  moves := .inl rfl
  awaiting := ⟨fun h => absurd rfl h.2, fun ⟨r, h, hi⟩ => absurd hi (hr r h)⟩
  ready := ⟨fun h => absurd rfl h.2, fun h => absurd h hn⟩
  call := hc

/-- An answer that carries no next state, whatever it is replaced by. -/
private theorem law_of_answer {N : Nlohmann} {server : Server} {line : Bytes} {response : Json}
    (hu : response.isUtf8 = true) (hn : ¬ Awaited N server line)
    (hr : ∀ r, response.dump = some r → ¬ IsInitializeResult r) :
    ∃ a server', server.respond response none = some (a, server') ∧ LifecycleLaw N server line a server' := by
  obtain ⟨p, state', he, hs⟩ := server.respond_spec hu none
  have hsame : state' = server.state := by cases hs <;> rfl
  subst hsame
  refine ⟨_, _, he, .of_same (fun r h => ?_) hn nofun⟩
  have h' : p.response = some r := h
  cases hs with
  | sent dump _ => exact hr r (dump.trans h')
  | replaced _ _ dump _ => exact not_isInitializeResult_of_error (dump.trans h')
  | nothing => cases h'

/-- The initialize result itself moves the server on, what replaces it does not. -/
private theorem law_of_initialize {N : Nlohmann} {server : Server} {line : Bytes} {id : Json}
    (hu : id.isUtf8 = true) (hid : isValidId id = true) (hs : server.state = .uninitialized) :
    ∃ a server', server.respond (makeResult id initializeResult) (some .awaitingInitializedNotification) =
      some (a, server') ∧ LifecycleLaw N server line a server' := by
  have hn : ¬ Awaited N server line := fun h => by cases hs.symm.trans h.1
  obtain ⟨p, state', he, hser⟩ := server.respond_spec
    (isUtf8_makeResult hu isUtf8_initializeResult) (some .awaitingInitializedNotification)
  cases hser with
  | sent dump _ =>
    refine ⟨_, _, he, rfl, rfl, .inr (.inl ⟨hs, rfl⟩), ?_, ?_, nofun⟩
    · exact ⟨fun _ => ⟨_, rfl, id, hid, dump⟩, fun _ => ⟨rfl, by simp [hs]⟩⟩
    · exact ⟨fun h => LifecycleState.noConfusion h.1, fun h => absurd h hn⟩
  | replaced _ _ dump _ =>
    refine ⟨_, _, he, .of_same (fun r h => ?_) hn nofun⟩
    exact not_isInitializeResult_of_error (dump.trans h)
  | nothing => exact ⟨_, _, he, .of_same nofun hn nofun⟩

/-- Every line is accepted and obeys the law. -/
theorem acceptLine_lifecycle (N : Nlohmann) (server : Server) (line : Bytes) :
    ∃ a server', server.acceptLine N line = some (a, server') ∧ LifecycleLaw N server line a server' := by
  have hcase := server.acceptLine_case N line
  generalize server.acceptLine N line = out at hcase
  cases hcase with
  | unreadable code message h =>
    exact law_of_answer (isUtf8_makeError rfl code message) (fun ⟨_, m, hm, _⟩ => h m hm)
      fun r hr => not_isInitializeResult_of_error hr
  | @message m _ readable h =>
    have hm : m.isUtf8 = true := N.isUtf8_of_parse line m readable.parse
    have unawaited (hi : server.state = .awaitingInitializedNotification → ¬ IsInitialized m) :
        ¬ Awaited N server line := by
      rintro ⟨hs, m', hm', hi'⟩
      obtain rfl := Option.some.inj (readable.parse.symm.trans hm'.parse)
      exact hi hs hi'
    have request {id : Json} (hr : IsRequest m id) : ¬ Awaited N server line :=
      unawaited fun _ hi => hr.not_notification hi.isNotification
    cases h with
    | @error id code message origin _ notification =>
      have hid : id.isUtf8 = true := by
        rcases origin with rfl | h
        · rfl
        · exact h.isUtf8 hm
      exact law_of_answer (isUtf8_makeError hid code message) (unawaited fun _ hi => notification hi.isNotification)
        fun r hr => not_isInitializeResult_of_error hr
    | opened hr hs => exact law_of_initialize (hr.isUtf8 hm) hr.valid hs
    | ping hr =>
      exact law_of_answer (isUtf8_makeResult (hr.isUtf8 hm) rfl) (request hr)
        fun r h => not_isInitializeResult_of_ping h
    | list hr hd =>
      refine law_of_answer (isUtf8_makeResult (hr.isUtf8 hm) (isUtf8_ofPairs ?_)) (request hr)
        fun r h => not_isInitializeResult_of_list h
      simpa [isUtf8] using hd
    | ignored d _ other => exact ⟨_, _, rfl, .of_same nofun (unawaited other) nofun⟩
    | initialized hi hs =>
      refine ⟨_, _, rfl, rfl, rfl, .inr (.inr ⟨hs, rfl⟩), ?_, ?_, nofun⟩
      · exact ⟨fun h => LifecycleState.noConfusion h.1, nofun⟩
      · exact ⟨fun _ => ⟨hs, m, readable, hi⟩, fun _ => ⟨rfl, by simp [hs]⟩⟩
    | call hr hs hk ho =>
      refine ⟨_, _, rfl, .of_same nofun (request hr) fun c hc => ?_⟩
      cases hc
      exact ⟨hs, hk, ho⟩
    | cancellation notice _ other => exact ⟨_, _, rfl, .of_same nofun (unawaited fun _ => other) nofun⟩

/-! ### Runs -/

namespace Server

/-- The lines of one connection. -/
def connection (N : Nlohmann) (budget : ResourceBudget) (tools : Option ToolService) : Machine Server Bytes where
  init server := server = create budget tools
  step server line := (server.acceptLine N line).map (·.2)

end Server

/-- How far the lifecycle has come. -/
def LifecycleState.rank : LifecycleState → Nat
  | .uninitialized => 0
  | .awaitingInitializedNotification => 1
  | .ready => 2

private theorem LifecycleLaw.rank_le {N : Nlohmann} {server server' : Server} {line : Bytes} {a : LineAction}
    (h : LifecycleLaw N server line a server') : server.state.rank ≤ server'.state.rank := by
  rcases h.moves with h | ⟨h, h'⟩ | ⟨h, h'⟩ <;> simp [*, LifecycleState.rank]

/-- A connection reads any lines, and never goes back. -/
private theorem exists_run (N : Nlohmann) (budget : ResourceBudget) (tools : Option ToolService) (server : Server)
    (lines : List Bytes) : ∃ server', (Server.connection N budget tools).run server lines = some server' ∧
      server.state.rank ≤ server'.state.rank := by
  induction lines generalizing server with
  | nil => exact ⟨server, rfl, le_rfl⟩
  | cons line lines ih =>
    obtain ⟨a, next, hn, hl⟩ := acceptLine_lifecycle N server line
    obtain ⟨server', hr, hle⟩ := ih next
    refine ⟨server', ?_, hl.rank_le.trans hle⟩
    have hstep : (Server.connection N budget tools).step server line = some next := by
      simp [Server.connection, hn]
    rw [Machine.run_cons, hstep, Option.bind_some, hr]

/-- Around any line of a connection: the lines before it lead to a server, the line obeys the law there, and the
state goes only forward over the lines before and after. -/
theorem Server.lifecycle (N : Nlohmann) (budget : ResourceBudget) (tools : Option ToolService)
    (before : List Bytes) (line : Bytes) (after : List Bytes) :
    ∃ server a server' last,
      (connection N budget tools).run (create budget tools) before = some server ∧
      server.acceptLine N line = some (a, server') ∧
      (connection N budget tools).run server' after = some last ∧
      LifecycleLaw N server line a server' ∧
      server.state.rank ≤ server'.state.rank ∧ server'.state.rank ≤ last.state.rank := by
  obtain ⟨server, hb, -⟩ := exists_run N budget tools (create budget tools) before
  obtain ⟨a, server', hl, hlaw⟩ := acceptLine_lifecycle N server line
  obtain ⟨last, ha, hle⟩ := exists_run N budget tools server' after
  exact ⟨server, a, server', last, hb, hl, ha, hlaw, hlaw.rank_le, hle⟩

end NativeMcp
