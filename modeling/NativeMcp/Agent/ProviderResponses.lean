import Mathlib.Data.List.Perm.Subperm
import NativeMcp.Agent.Proposals
import NativeMcp.Agent.Rereading
import NativeMcp.Agent.ToolSurface

/-!
# The responses of a provider

`parse_provider_response` reads the neutral format, a final message or tool calls; `parse_openai_compatible_response`
reads the envelope of the other format, and hands its calls over as a text in the neutral one.  The text is longer
than what the provider sent where this has characters that are escaped; its length is `neutralSize`.
-/

namespace NativeMcp.Agent

/-- `_bounded_text` -/
def boundedText (value : PyVal) (maximum : Nat) (kind : FailureClass) : Except Raised Str :=
  match value with
  | .str s => do
    require (s ≠ [] && (encodedSize s).any (· ≤ maximum)) kind
    return s
  | _ => .error (.provider kind)

/-- `parse_closed_json` of a text. -/
def parseClosedText (L : Library) (limits : Limits) (s : Str) : Except Raised PyVal := do
  require (encodedSize s).isSome .malformedJson
  parseClosedJson L (Utf8.encode s) limits none none

/-- `except (AttributeError, …): raise ContractError(…)` -/
def closeErrors {α : Type} (x : Except Raised α) : Except Raised α :=
  match x with
  | .error .other => .error (.provider .invalidToolProposal)
  | _ => x

inductive ProviderResponse where
  | final (content : Str)
  | proposals (calls : List ProviderToolCallProposal)

/-- `ProviderFinalMessage(ProviderMessage(MessageRole.ASSISTANT, content))` -/
def finalMessage (content : Str) : Except Raised ProviderResponse := do
  let content ← boundedText (.str content) hardLimits.messageBytes .localValidationFailure
  return .final content

section

variable (L : Library) (limits : Limits) (tools : List AdvertisedTool)

/-! ### The neutral format -/

/-- `tools_by_name.get(name)`; of two tools with one name the later one counts. -/
def toolNamed (name : Str) : Option AdvertisedTool := tools.reverse.find? fun tool => tool.name == name

/-- What is checked of one call, whose identifier must be none of those that were seen. -/
def neutralCall (seen : List Str) (id name arguments : PyVal) : Except Raised ProviderToolCallProposal := do
  let text ← boundedText arguments limits.toolArgumentBytes .invalidToolProposal
  let value ← parseClosedText L limits text
  require value.isDict .invalidToolProposal
  let callId ← ToolCallId.ofValue L id
  require (!seen.contains callId.text) .replayOrDuplicateProposal
  let name ← boundedText name 256 .invalidToolProposal
  let some tool := toolNamed tools name | .error (.provider .invalidToolProposal)
  validateSchema limits value tool.parameters
  ProviderToolCallProposal.create L callId name value

/-- The loop over the calls. -/
def neutralCalls : List Str → List PyVal → Except Raised (List ProviderToolCallProposal)
  | _, [] => .ok []
  | seen, item :: rest => do
    let call ← closedFields .localValidationFailure item ["id", "name", "arguments"] ["id", "name", "arguments"]
    let proposal ← neutralCall L limits tools seen ((call.get? "id").getD .none) ((call.get? "name").getD .none)
      ((call.get? "arguments").getD .none)
    let others ← neutralCalls (proposal.callId.text :: seen) rest
    return proposal :: others

/-- The `try` of `parse_provider_response`. -/
def readProviderResponse (raw : Bytes) : Except Raised ProviderResponse := do
  let value ← parseClosedJson L raw limits none none
  require value.isDict .unsupportedProviderContent
  if value.has "message" then do
    let response ← closedFields .localValidationFailure value ["message"] ["message"]
    let message ← closedFields .localValidationFailure ((response.get? "message").getD .none) ["role", "content"]
      ["role", "content"]
    require ((message.get? "role").any (PyVal.isText "assistant") && (message.get? "content").any PyVal.isStr)
      .unsupportedProviderContent
    let content ← boundedText ((message.get? "content").getD .none) limits.messageBytes .localValidationFailure
    finalMessage content
  else do
    let response ← closedFields .localValidationFailure value ["toolCalls"] ["toolCalls"]
    let some (.list calls) := response.get? "toolCalls" | .error (.provider .invalidToolProposal)
    require (calls ≠ [] && calls.length ≤ limits.proposedToolCallCount) .invalidToolProposal
    let proposals ← neutralCalls L limits tools [] calls
    return .proposals proposals

/-- `parse_provider_response` -/
def parseProviderResponse (raw : Bytes) : Except Raised ProviderResponse :=
  closeErrors (readProviderResponse L limits tools raw)

/-! ### The envelope -/

/-- What is read of a tool call in the envelope. -/
structure DecodedCall where
  id : Str
  name : Str
  arguments : Str
  deriving DecidableEq

inductive Envelope where
  | text (content : Str)
  | calls (calls : List DecodedCall)
  deriving DecidableEq

/-- One item of `tool_calls`. -/
def decodeCall (item : PyVal) : Except Raised DecodedCall := do
  let call ← closedFields .unsupportedProviderContent item ["id", "type", "function"] ["id", "type", "function"]
  require ((call.get? "type").any (PyVal.isText "function")) .unsupportedProviderContent
  let function ← closedFields .unsupportedProviderContent ((call.get? "function").getD .none) ["name", "arguments"]
    ["name", "arguments"]
  match call.get? "id", function.get? "name", function.get? "arguments" with
  | some (.str id), some (.str name), some (.str arguments) => return ⟨id, name, arguments⟩
  | _, _, _ => .error (.provider .invalidToolProposal)

/-- `key in message and message[key] is not None` -/
def present (message : PyVal) (key : String) : Option PyVal :=
  match message.get? key with
  | some .none => none
  | value => value

/-- What `parse_openai_compatible_response` makes of the message of the only choice. -/
def decodeMessage (message : PyVal) : Except Raised Envelope := do
  require ((message.get? "role").any (PyVal.isText "assistant")) .unsupportedProviderContent
  match present message "content", present message "tool_calls" with
  | some _, some _ => .error (.provider .unsupportedProviderContent)
  | some content, none => do
    let text ← boundedText content limits.messageBytes .unsupportedProviderContent
    return .text text
  | none, some (.list items) => do
    require (items ≠ []) .unsupportedProviderContent
    let calls ← items.mapM decodeCall
    return .calls calls
  | none, _ => .error (.provider .unsupportedProviderContent)

/-- `parse_openai_compatible_response` as far as the final text or the calls. -/
def decodeEnvelope (raw : Bytes) : Except Raised Envelope := do
  let value ← parseClosedJson L raw limits none none
  let top ← closedFields .unsupportedProviderContent value
    ["id", "object", "created", "model", "choices", "usage", "system_fingerprint"] ["choices"]
  let some (.list [item]) := top.get? "choices" | .error (.provider .unsupportedProviderContent)
  let choice ← closedFields .unsupportedProviderContent item ["index", "message", "finish_reason", "logprobs"]
    ["message"]
  let message ← closedFields .unsupportedProviderContent ((choice.get? "message").getD .none)
    ["role", "content", "tool_calls", "refusal"] ["role"]
  decodeMessage limits message

/-- `{"id": …, "name": …, "arguments": …}` -/
def DecodedCall.value (call : DecodedCall) : PyVal :=
  .dict false [(chars "id", .str call.id), (chars "name", .str call.name), (chars "arguments", .str call.arguments)]

/-- `{"toolCalls": calls}` -/
def neutralValue (calls : List DecodedCall) : PyVal :=
  .dict false [(chars "toolCalls", .list (calls.map DecodedCall.value))]

/-- `parse_openai_compatible_response` -/
def parseOpenaiCompatibleResponse (raw : Bytes) : Except Raised ProviderResponse := do
  match ← decodeEnvelope L limits raw with
  | .text content => finalMessage content
  | .calls calls => do
    let neutral ← canon L (neutralValue calls)
    parseProviderResponse L limits tools neutral

/-! ### The neutral checks of the decoded calls -/

/-- The loop of `parse_provider_response`, over the calls themselves. -/
def decodedProposals : List Str → List DecodedCall → Except Raised (List ProviderToolCallProposal)
  | _, [] => .ok []
  | seen, call :: rest => do
    let proposal ← neutralCall L limits tools seen (.str call.id) (.str call.name) (.str call.arguments)
    let others ← decodedProposals (proposal.callId.text :: seen) rest
    return proposal :: others

/-- What `parse_provider_response` checks of the calls, and nothing about their text. -/
def neutralProposals (calls : List DecodedCall) : Except Raised (List ProviderToolCallProposal) := closeErrors do
  require (calls ≠ [] && calls.length ≤ limits.proposedToolCallCount) .invalidToolProposal
  decodedProposals L limits tools [] calls

end

/-! ### The length of the neutral text -/

/-- The characters that `json.dumps` writes as two. -/
def shortEscapes : List Nat := [0x22, 0x5C, 0x0A, 0x0D, 0x09, 0x0C, 0x08]

/-- How many bytes `json.dumps` writes for a character. -/
def escapedWidth (c : Nat) : Nat :=
  if shortEscapes.contains c then 2 else if 0x20 ≤ c && c ≤ 0x7E then 1 else if c < 0x10000 then 6 else 12

/-- The size of a string that `json.dumps` writes, without its quotes. -/
def escapedSize (s : Str) : Nat := (s.map escapedWidth).sum

def DecodedCall.size (call : DecodedCall) : Nat :=
  escapedSize call.id + escapedSize call.name + escapedSize call.arguments

/-- The size of `{"toolCalls":[…]}`: the names and the punctuation of a call take 34 bytes, and a comma follows. -/
def neutralSize (calls : List DecodedCall) : Nat := 15 + (calls.map fun call => 35 + call.size).sum

theorem length_escapeAscii (c : Nat) : (escapeAscii c).length = escapedWidth c := by
  unfold escapedWidth
  by_cases hshort : shortEscapes.contains c = true
  · rw [if_pos hshort]
    have hmem : c ∈ shortEscapes := List.contains_iff_mem.1 hshort
    simp only [shortEscapes, List.mem_cons, List.not_mem_nil, or_false] at hmem
    rcases hmem with rfl | rfl | rfl | rfl | rfl | rfl | rfl <;> rfl
  · rw [if_neg hshort]
    -- every test before the one for plain characters is for a short escape
    have hne : ∀ n ∈ shortEscapes, c ≠ n := by
      rintro n hn rfl
      exact hshort (List.contains_iff_mem.2 hn)
    unfold escapeAscii
    rw [if_neg (hne _ (by decide)), if_neg (hne _ (by decide)), if_neg (hne _ (by decide)), if_neg (hne _ (by decide)),
      if_neg (hne _ (by decide)), if_neg (hne _ (by decide)), if_neg (hne _ (by decide))]
    by_cases hplain : (decide (0x20 ≤ c) && decide (c ≤ 0x7E)) = true
    · rw [if_pos hplain, if_pos hplain]
      rfl
    · rw [if_neg hplain, if_neg hplain]
      by_cases hbasic : c < 0x10000
      · rw [if_pos hbasic, if_pos hbasic]
        rfl
      · rw [if_neg hbasic, if_neg hbasic]
        rfl

theorem length_dumpsString (s : Str) : (dumpsString s).length = escapedSize s + 2 := by
  have hquote : (bytes "\"").length = 1 := by decide +kernel
  have hescaped : (s.flatMap escapeAscii).length = escapedSize s := by
    rw [List.length_flatMap, escapedSize]
    simp only [length_escapeAscii]
  unfold dumpsString
  rw [List.length_append, List.length_append, hquote, hescaped]
  omega

theorem length_commaSeparated {ts : List Bytes} (h : ts ≠ []) :
    (Json.commaSeparated ts).length + 1 = (ts.map fun t => t.length + 1).sum := by
  have hcomma : (bytes ",").length = 1 := by decide +kernel
  induction ts with
  | nil => exact absurd rfl h
  | cons t ts ih =>
    cases ts with
    | nil =>
      show t.length + 1 = t.length + 1 + 0
      rfl
    | cons u ts =>
      have hrest := ih (List.cons_ne_nil u ts)
      rw [Json.commaSeparated, List.length_append, List.length_append, hcomma, List.map_cons, List.sum_cons, ← hrest]
      · omega
      · exact List.cons_ne_nil u ts

/-- The text of one call. -/
def DecodedCall.text (call : DecodedCall) : Bytes :=
  bytes "\x7b" ++ Json.commaSeparated [dumpsString (chars "arguments") ++ bytes ":" ++ dumpsString call.arguments,
    dumpsString (chars "id") ++ bytes ":" ++ dumpsString call.id,
    dumpsString (chars "name") ++ bytes ":" ++ dumpsString call.name] ++ bytes "\x7d"

/-- The text of all calls. -/
def neutralText (calls : List DecodedCall) : Bytes :=
  bytes "\x7b" ++ (dumpsString (chars "toolCalls") ++ bytes ":" ++
    (bytes "[" ++ Json.commaSeparated (calls.map DecodedCall.text) ++ bytes "]")) ++ bytes "\x7d"

theorem DecodedCall.length_text (call : DecodedCall) : call.text.length = 34 + call.size := by
  have harguments : (dumpsString (chars "arguments")).length = 11 := by decide +kernel
  have hid : (dumpsString (chars "id")).length = 4 := by decide +kernel
  have hname : (dumpsString (chars "name")).length = 6 := by decide +kernel
  have hcolon : (bytes ":").length = 1 := by decide +kernel
  have hcomma : (bytes ",").length = 1 := by decide +kernel
  have hopen : (bytes "\x7b").length = 1 := by decide +kernel
  have hclose : (bytes "\x7d").length = 1 := by decide +kernel
  unfold DecodedCall.text DecodedCall.size
  simp only [Json.commaSeparated, List.length_append, length_dumpsString call.arguments, length_dumpsString call.id,
    length_dumpsString call.name, harguments, hid, hname, hcolon, hcomma, hopen, hclose]
  omega

section

variable {L : Library} {limits : Limits} {tools : List AdvertisedTool}

private theorem canonItems_calls (calls : List DecodedCall) :
    canonItems L (calls.map DecodedCall.value) = .ok (calls.map DecodedCall.text) := by
  induction calls with
  | nil => rfl
  | cons call calls ih =>
    have hcall : canon L call.value = .ok call.text := rfl
    rw [List.map_cons, canonItems, hcall, ih]
    rfl

theorem canon_neutralValue (calls : List DecodedCall) : canon L (neutralValue calls) = .ok (neutralText calls) := by
  unfold neutralValue
  rw [canon, canonMembers, canon, canonItems_calls]
  rfl

theorem length_neutralText {calls : List DecodedCall} (h : calls ≠ []) :
    (neutralText calls).length = neutralSize calls := by
  have hname : (dumpsString (chars "toolCalls")).length = 11 := by decide +kernel
  have hcolon : (bytes ":").length = 1 := by decide +kernel
  have hbrackets : (bytes "[").length = 1 ∧ (bytes "]").length = 1 := by decide +kernel
  have hbraces : (bytes "\x7b").length = 1 ∧ (bytes "\x7d").length = 1 := by decide +kernel
  have hcalls : (Json.commaSeparated (calls.map DecodedCall.text)).length + 1 = _ :=
    length_commaSeparated (by simpa using h)
  have hsum : ((calls.map DecodedCall.text).map fun t => t.length + 1).sum =
      (calls.map fun call => 35 + call.size).sum := by
    rw [List.map_map]
    congr 1
    apply List.map_congr_left
    intro call _
    have hlength := call.length_text
    show call.text.length + 1 = 35 + call.size
    omega
  unfold neutralText neutralSize
  simp only [List.length_append, hname, hcolon, hbrackets.1, hbrackets.2, hbraces.1, hbraces.2]
  omega

/-! ### What the envelope's own checks say of the calls -/

/-- `_json_value` accepts the calls in the neutral format. -/
structure NeutralFits (limits : Limits) (calls : List DecodedCall) : Prop where
  depth : 3 ≤ limits.jsonNestingDepth
  items : 3 ≤ limits.objectArrayItems ∧ calls.length ≤ limits.objectArrayItems
  strings : ∀ call ∈ calls, fitsString limits call.id = true ∧ fitsString limits call.name = true ∧
    fitsString limits call.arguments = true

theorem closedFields_eq_ok {kind : FailureClass} {value v : PyVal} {allowed required : List String}
    (h : closedFields kind value allowed required = .ok v) : v = value ∧ required.all value.has = true := by
  unfold closedFields at h
  cases hmembers : value.members? with
  | none =>
    rw [hmembers] at h
    cases h
  | some members =>
    rw [hmembers] at h
    obtain ⟨-, h⟩ := require_bind_eq_ok.1 h
    obtain ⟨hrequired, h⟩ := require_bind_eq_ok.1 h
    exact ⟨(Except.ok.inj h).symm, hrequired⟩

/-- The parts of a value that was checked were checked. -/
theorem jsonValue_get? {depth : Nat} {value v : PyVal} {key : String} (h : jsonValue limits none depth value = .ok ())
    (hv : value.get? key = some v) : jsonValue limits none (depth + 1) v = .ok () := by
  cases value with
  | dict frozen members => exact ((jsonValue_dict_iff.1 h).2.2 _ (mem_of_lookup_eq_some hv)).2
  | _ => cases hv

theorem jsonValue_item {depth : Nat} {items : List PyVal} {v : PyVal}
    (h : jsonValue limits none depth (.list items) = .ok ()) (hv : v ∈ items) :
    jsonValue limits none (depth + 1) v = .ok () := (jsonValue_list_iff.1 h).2.2 v hv

/-- A dictionary with all of these keys has as many members. -/
theorem length_le_of_has {frozen : Bool} {members : List (Str × PyVal)} {keys : List String}
    (hnodup : (keys.map chars).Nodup) (h : keys.all (PyVal.dict frozen members).has = true) :
    keys.length ≤ members.length := by
  have hsubset : keys.map chars ⊆ members.map Prod.fst := by
    intro key hkey
    obtain ⟨name, hname, rfl⟩ := List.mem_map.1 hkey
    have hhas : (members.lookup (chars name)).isSome = true := List.all_eq_true.1 h name hname
    obtain ⟨v, hv⟩ := Option.isSome_iff_exists.1 hhas
    exact List.mem_map_of_mem (mem_of_lookup_eq_some hv)
  have hle := (List.subperm_of_subset hnodup hsubset).length_le
  rwa [List.length_map, List.length_map] at hle

theorem exists_get?_of_has {value : PyVal} {keys : List String} (key : String) (h : keys.all value.has = true)
    (hkey : key ∈ keys) : ∃ v, value.get? key = some v :=
  Option.isSome_iff_exists.1 (List.all_eq_true.1 h key hkey)

/-- A call of the envelope that was read is one that `_json_value` has seen, with three fields and three strings. -/
theorem decodeCall_spec {depth : Nat} {item : PyVal} {call : DecodedCall}
    (hitem : jsonValue limits none depth item = .ok ()) (h : decodeCall item = .ok call) :
    depth + 2 ≤ limits.jsonNestingDepth ∧ 3 ≤ limits.objectArrayItems ∧ fitsString limits call.id = true ∧
      fitsString limits call.name = true ∧ fitsString limits call.arguments = true := by
  unfold decodeCall at h
  obtain ⟨v, hv, hrest⟩ := ok_of_bind h
  obtain ⟨hvalue, hkeys⟩ := closedFields_eq_ok hv
  rw [hvalue] at hrest
  obtain ⟨-, hrest⟩ := require_bind_eq_ok.1 hrest
  obtain ⟨w, hw, hread⟩ := ok_of_bind hrest
  obtain ⟨function, hfunction⟩ := exists_get?_of_has "function" hkeys (by decide)
  obtain ⟨hvalue', -⟩ := closedFields_eq_ok hw
  rw [hfunction, Option.getD_some] at hvalue'
  rw [hvalue'] at hread
  have hinner := jsonValue_get? hitem hfunction
  split at hread
  · rename_i id name arguments hid hname harguments
    cases hread
    have hidfits := jsonValue_str_iff.1 (jsonValue_get? hitem hid)
    have hnamefits := jsonValue_str_iff.1 (jsonValue_get? hinner hname)
    have hargumentsfits := jsonValue_str_iff.1 (jsonValue_get? hinner harguments)
    refine ⟨hnamefits.1, ?_, hidfits.2, hnamefits.2, hargumentsfits.2⟩
    cases item with
    | dict frozen members =>
      have hthree : ["id", "type", "function"].length ≤ members.length := length_le_of_has (by decide) hkeys
      have hitems := (jsonValue_dict_iff.1 hitem).2.1
      exact le_trans hthree hitems
    | _ => cases hid
  · cases hread

/-- The calls of a message that `_json_value` has seen fit the neutral format. -/
theorem decodeMessage_spec {depth : Nat} {message : PyVal} {calls : List DecodedCall}
    (hmessage : jsonValue limits none depth message = .ok ()) (h : decodeMessage limits message = .ok (.calls calls)) :
    calls ≠ [] ∧ NeutralFits limits calls := by
  unfold decodeMessage at h
  obtain ⟨-, h⟩ := require_bind_eq_ok.1 h
  split at h
  · cases h
  · obtain ⟨text, -, h⟩ := ok_of_bind h
    cases h
  · rename_i items hcontent hcalls
    obtain ⟨hitems, h⟩ := require_bind_eq_ok.1 h
    obtain ⟨decoded, hdecoded, h⟩ := ok_of_bind h
    cases h
    have hget : message.get? "tool_calls" = some (.list items) := by
      unfold present at hcalls
      split at hcalls
      · cases hcalls
      · exact hcalls
    have hlist := jsonValue_get? hmessage hget
    have hlength := (forall₂_of_mapM hdecoded).length_eq
    have hspec : ∀ call ∈ calls, depth + 1 + 1 + 2 ≤ limits.jsonNestingDepth ∧ 3 ≤ limits.objectArrayItems ∧
        fitsString limits call.id = true ∧ fitsString limits call.name = true ∧
        fitsString limits call.arguments = true := by
      intro call hcall
      obtain ⟨item, hitem, hdecode⟩ := exists_of_mem_mapM hdecoded hcall
      exact decodeCall_spec (jsonValue_item hlist hitem) hdecode
    -- no call is lost, so there is one from which the nesting and the three fields are known
    have hne : calls ≠ [] := by
      rintro rfl
      exact of_decide_eq_true hitems (List.length_eq_zero_iff.1 hlength)
    obtain ⟨first, hfirst⟩ := List.exists_mem_of_ne_nil calls hne
    obtain ⟨hdepth, hthree, -⟩ := hspec first hfirst
    have hcount := (jsonValue_list_iff.1 hlist).2.1
    refine ⟨hne, ⟨by omega, ⟨hthree, by omega⟩, ?_⟩⟩
    intro call hcall
    exact (hspec call hcall).2.2
  · cases h

/-- `_json_value` has seen every part of the envelope; the neutral format nests less and has no more items. -/
theorem decodeEnvelope_spec {raw : Bytes} {calls : List DecodedCall}
    (h : decodeEnvelope L limits raw = .ok (.calls calls)) : calls ≠ [] ∧ NeutralFits limits calls := by
  unfold decodeEnvelope at h
  obtain ⟨value, hparsed, hrest⟩ := ok_of_bind h
  obtain ⟨-, -, hvalue⟩ := parseClosedJson_eq_ok_iff.1 hparsed
  obtain ⟨top, htop, hchoices⟩ := ok_of_bind hrest
  rw [(closedFields_eq_ok htop).1] at hchoices
  split at hchoices
  · rename_i item hitem
    obtain ⟨choice, hchoice, hmessage⟩ := ok_of_bind hchoices
    obtain ⟨hsame, hkeys⟩ := closedFields_eq_ok hchoice
    rw [hsame] at hmessage
    obtain ⟨inner, hinner⟩ := exists_get?_of_has "message" hkeys (by decide)
    obtain ⟨message, hclosed, hdecode⟩ := ok_of_bind hmessage
    rw [(closedFields_eq_ok hclosed).1, hinner, Option.getD_some] at hdecode
    have hitemvalue := jsonValue_item (jsonValue_get? hvalue hitem) (List.mem_singleton.2 rfl)
    exact decodeMessage_spec (jsonValue_get? hitemvalue hinner) hdecode
  · cases hchoices

/-! ### Reading the neutral text -/

/-- What is read of the text of a call is its three strings. -/
private theorem neutralCalls_reread (seen : List Str) (calls : List DecodedCall) :
    neutralCalls L limits tools seen ((calls.map DecodedCall.value).map PyVal.reread) =
      decodedProposals L limits tools seen calls := by
  induction calls generalizing seen with
  | nil => rfl
  | cons call calls ih =>
    have hclosed : closedFields .localValidationFailure call.value.reread ["id", "name", "arguments"]
        ["id", "name", "arguments"] = .ok call.value.reread := rfl
    have hid : call.value.reread.get? "id" = some (.str call.id) := rfl
    have hname : call.value.reread.get? "name" = some (.str call.name) := rfl
    have harguments : call.value.reread.get? "arguments" = some (.str call.arguments) := rfl
    rw [List.map_cons, List.map_cons, neutralCalls, decodedProposals, hclosed, ok_bind, hid, hname, harguments]
    simp only [Option.getD_some, ih]

/-- `_json_value` accepts what is read of the neutral text. -/
private theorem jsonValue_neutralValue {calls : List DecodedCall} (h : NeutralFits limits calls) :
    jsonValue limits none 0 (neutralValue calls).reread = .ok () := by
  have hdepth := h.depth
  have hitems := h.items
  have hcall : ∀ call ∈ calls, jsonValue limits none 2 call.value.reread = .ok () := by
    intro call hmem
    obtain ⟨hid, hname, harguments⟩ := h.strings call hmem
    unfold DecodedCall.value
    rw [jsonValue_reread_dict_iff]
    refine ⟨by omega, hitems.1, ?_⟩
    intro p hp
    simp only [List.mem_cons, List.not_mem_nil, or_false] at hp
    rcases hp with rfl | rfl | rfl
    · exact ⟨(by decide : chars "id" ≠ []), jsonValue_str_iff.2 ⟨hdepth, hid⟩⟩
    · exact ⟨(by decide : chars "name" ≠ []), jsonValue_str_iff.2 ⟨hdepth, hname⟩⟩
    · exact ⟨(by decide : chars "arguments" ≠ []), jsonValue_str_iff.2 ⟨hdepth, harguments⟩⟩
  unfold neutralValue
  rw [jsonValue_reread_dict_iff]
  refine ⟨by omega, by rw [List.length_singleton]; omega, ?_⟩
  intro p hp
  rw [List.mem_singleton.1 hp]
  refine ⟨(by decide : chars "toolCalls" ≠ []), ?_⟩
  show jsonValue limits none 1 (.list (PyVal.rereadItems (calls.map DecodedCall.value))) = .ok ()
  rw [rereadItems_eq, jsonValue_list_iff]
  refine ⟨by omega, by rw [List.length_map, List.length_map]; exact hitems.2, ?_⟩
  intro v hv
  obtain ⟨u, hu, rfl⟩ := List.mem_map.1 hv
  obtain ⟨call, hmem, rfl⟩ := List.mem_map.1 hu
  exact hcall call hmem

/-- A text that is too long is refused before it is read. -/
theorem readProviderResponse_of_long {text : Bytes} (h : ¬text.length ≤ limits.providerResponseBytes) :
    readProviderResponse L limits tools text = .error (.provider .oversizedResponse) := by
  have hrefused : require (text.length ≤ limits.providerResponseBytes) .oversizedResponse =
      .error (.provider .oversizedResponse) := by
    unfold require
    rw [decide_eq_false h]
    rfl
  unfold readProviderResponse parseClosedJson
  rw [Option.getD_none, hrefused]
  rfl

/-- The neutral text of calls, where it is short enough, is read as these calls. -/
theorem readProviderResponse_neutral {calls : List DecodedCall} {text : Bytes} (hfits : NeutralFits limits calls)
    (hlength : text.length ≤ limits.providerResponseBytes) (hloads : L.loads text = .ok (neutralValue calls).reread) :
    readProviderResponse L limits tools text = (do
      require (calls ≠ [] && calls.length ≤ limits.proposedToolCallCount) .invalidToolProposal
      let proposals ← decodedProposals L limits tools [] calls
      return .proposals proposals) := by
  have hparsed : parseClosedJson L text limits none none = .ok (neutralValue calls).reread :=
    parseClosedJson_eq_ok_iff.2 ⟨hlength, hloads, jsonValue_neutralValue hfits⟩
  -- the text has one field, so it is not taken for a final message
  have hmessage : (neutralValue calls).reread.has "message" = false := rfl
  have hclosed : closedFields .localValidationFailure (neutralValue calls).reread ["toolCalls"] ["toolCalls"] =
      .ok (neutralValue calls).reread := rfl
  have hcalls : (neutralValue calls).reread.get? "toolCalls" =
      some (.list ((calls.map DecodedCall.value).map PyVal.reread)) := by
    rw [← rereadItems_eq]
    rfl
  have hdict : require (neutralValue calls).reread.isDict .unsupportedProviderContent = .ok () := rfl
  have hcount : require (decide ((calls.map DecodedCall.value).map PyVal.reread ≠ []) &&
      decide (((calls.map DecodedCall.value).map PyVal.reread).length ≤ limits.proposedToolCallCount))
      .invalidToolProposal =
      require (decide (calls ≠ []) && decide (calls.length ≤ limits.proposedToolCallCount)) .invalidToolProposal := by
    simp only [ne_eq, List.map_eq_nil_iff, List.length_map]
  unfold readProviderResponse
  rw [hparsed, ok_bind, hdict, ok_bind, if_neg (by rw [hmessage]; exact Bool.false_ne_true), hclosed, ok_bind, hcalls]
  dsimp only
  rw [hcount, neutralCalls_reread]

theorem closeErrors_eq_ok {α : Type} {x : Except Raised α} {a : α} : closeErrors x = .ok a ↔ x = .ok a := by
  unfold closeErrors
  split
  · exact ⟨fun h => (by cases h), fun h => (by cases h)⟩
  · exact Iff.rfl

theorem bind_proposals_eq_ok {x : Except Raised (List ProviderToolCallProposal)} {response : ProviderResponse} :
    (x >>= fun proposals => pure (ProviderResponse.proposals proposals)) = .ok response ↔
      ∃ proposals, response = .proposals proposals ∧ x = .ok proposals := by
  constructor
  · intro h
    obtain ⟨proposals, hx, hresponse⟩ := ok_of_bind h
    exact ⟨proposals, (Except.ok.inj hresponse).symm, hx⟩
  · rintro ⟨proposals, rfl, rfl⟩
    rfl

theorem parseProviderResponse_of_long {text : Bytes} (h : ¬text.length ≤ limits.providerResponseBytes) :
    parseProviderResponse L limits tools text = .error (.provider .oversizedResponse) := by
  unfold parseProviderResponse
  rw [readProviderResponse_of_long h]
  rfl

/-- A neutral text that is short enough is accepted with what the neutral checks make of its calls. -/
theorem parseProviderResponse_eq_ok_iff {calls : List DecodedCall} {text : Bytes} {response : ProviderResponse}
    (hfits : NeutralFits limits calls) (hlength : text.length ≤ limits.providerResponseBytes)
    (hloads : L.loads text = .ok (neutralValue calls).reread) :
    parseProviderResponse L limits tools text = .ok response ↔
      ∃ proposals, response = .proposals proposals ∧ neutralProposals L limits tools calls = .ok proposals := by
  unfold parseProviderResponse neutralProposals
  rw [closeErrors_eq_ok, readProviderResponse_neutral hfits hlength hloads, require_bind_eq_ok, bind_proposals_eq_ok]
  constructor
  · rintro ⟨hcount, proposals, hresponse, hproposals⟩
    exact ⟨proposals, hresponse, closeErrors_eq_ok.2 (require_bind_eq_ok.2 ⟨hcount, hproposals⟩)⟩
  · rintro ⟨proposals, hresponse, hproposals⟩
    obtain ⟨hcount, hproposals⟩ := require_bind_eq_ok.1 (closeErrors_eq_ok.1 hproposals)
    exact ⟨hcount, proposals, hresponse, hproposals⟩

/-- The calls of an envelope are handed over as their neutral text. -/
theorem parseOpenaiCompatibleResponse_of_calls {raw : Bytes} {calls : List DecodedCall}
    (h : decodeEnvelope L limits raw = .ok (.calls calls)) :
    parseOpenaiCompatibleResponse L limits tools raw = parseProviderResponse L limits tools (neutralText calls) := by
  unfold parseOpenaiCompatibleResponse
  rw [h, ok_bind]
  dsimp only
  rw [canon_neutralValue, ok_bind]

end

/-- The adapter accepts what the neutral checks accept of the decoded calls exactly if the text that hands them over is
not too long, or if they accept nothing. -/
theorem envelope_checked_alike_iff (L : Library) (limits : Limits) (tools : List AdvertisedTool) (raw : Bytes)
    (calls : List DecodedCall) (henvelope : decodeEnvelope L limits raw = .ok (.calls calls))
    (hloads : ∀ text, canon L (neutralValue calls) = .ok text → L.loads text = .ok (neutralValue calls).reread) :
    (∀ response, parseOpenaiCompatibleResponse L limits tools raw = .ok response ↔
        ∃ proposals, response = .proposals proposals ∧ neutralProposals L limits tools calls = .ok proposals) ↔
      neutralSize calls ≤ limits.providerResponseBytes ∨
        ∀ proposals, neutralProposals L limits tools calls ≠ .ok proposals := by
  obtain ⟨hne, hfits⟩ := decodeEnvelope_spec henvelope
  have hsize := length_neutralText hne
  rw [parseOpenaiCompatibleResponse_of_calls henvelope]
  by_cases hlength : neutralSize calls ≤ limits.providerResponseBytes
  · have hshort : (neutralText calls).length ≤ limits.providerResponseBytes := by omega
    refine ⟨fun _ => .inl hlength, fun _ response => ?_⟩
    exact parseProviderResponse_eq_ok_iff hfits hshort (hloads _ (canon_neutralValue calls))
  · -- the neutral text is refused whatever its calls are
    have hlong : ¬(neutralText calls).length ≤ limits.providerResponseBytes := by omega
    have hrefused : ∀ response, parseProviderResponse L limits tools (neutralText calls) ≠ .ok response := by
      intro response h
      rw [parseProviderResponse_of_long hlong] at h
      cases h
    constructor
    · intro h
      refine .inr fun proposals hproposals => ?_
      exact hrefused _ ((h (.proposals proposals)).2 ⟨proposals, rfl, hproposals⟩)
    · rintro (hshort | hnone)
      · exact absurd hshort hlength
      · intro response
        refine ⟨fun h => absurd h (hrefused response), ?_⟩
        rintro ⟨proposals, -, hproposals⟩
        exact absurd hproposals (hnone proposals)

theorem exists_ok_of_toBool {α : Type} {x : Except Raised α} (h : x.toBool = true) : ∃ a, x = .ok a := by
  cases x with
  | error raised => cases h
  | ok a => exact ⟨a, rfl⟩

/-! ### An envelope -/

/-- The call of a tool with one text. -/
def textCall (s : Str) : DecodedCall :=
  ⟨chars "call-1", chars "note", chars "\x7b\"text\":\"" ++ s ++ chars "\"\x7d"⟩

def textEnvelope (s : Str) : Bytes :=
  bytes ("\x7b\"choices\":[\x7b\"message\":\x7b\"role\":\"assistant\",\"tool_calls\":[\x7b\"id\":\"call-1\"," ++
    "\"type\":\"function\",\"function\":\x7b\"name\":\"note\",\"arguments\":\"\x7b\\\"text\\\":\\\"") ++
    Utf8.encode s ++ bytes "\\\"\x7d\"\x7d\x7d]\x7d\x7d]\x7d"

def textEnvelopeValue (s : Str) : PyVal :=
  .dict false [(chars "choices", .list [.dict false [(chars "message", .dict false [
    (chars "role", .str (chars "assistant")), (chars "tool_calls", .list [.dict false [
      (chars "id", .str (chars "call-1")), (chars "type", .str (chars "function")),
      (chars "function", .dict false [(chars "name", .str (chars "note")),
        (chars "arguments", .str (textCall s).arguments)])]])])]])]

/-- The library on the texts of this envelope; `digest` is that of the proposal. -/
def textLibrary (s : Str) (digest : String) : Library where
  loads raw :=
    if raw == textEnvelope s then .ok (textEnvelopeValue s)
    else if raw == neutralText [textCall s] then .ok (neutralValue [textCall s]).reread
    else if raw == Utf8.encode (textCall s).arguments then .ok (.dict false [(chars "text", .str s)])
    else .error .malformedJson
  floatRepr _ := []
  sha256 _ := bytes digest

def textTool : AdvertisedTool where
  name := chars "note"
  parameters := .dict true [(chars "type", .str (chars "object")),
    (chars "properties", .dict true [(chars "text", .dict true [(chars "type", .str (chars "string"))])])]
  description := []
  validName := by decide

/-- Responses may have 300 bytes. -/
def shortResponses : Limits := { toLimitValues := { providerResponseBytes := 300 }, valid := by decide }

private theorem loads_neutralText {s : Str} {digest : String}
    (h : (neutralText [textCall s] == textEnvelope s) = false) :
    ∀ text, canon (textLibrary s digest) (neutralValue [textCall s]) = .ok text →
      (textLibrary s digest).loads text = .ok (neutralValue [textCall s]).reread := by
  intro text htext
  rw [canon_neutralValue] at htext
  rw [← Except.ok.inj htext]
  unfold textLibrary
  dsimp only
  rw [if_neg (by rw [h]; exact Bool.false_ne_true), if_pos (beq_self_eq_true _)]

/-- The SHA-256 of `{"arguments":{"text":"hi"},"name":"note"}`. -/
def plainDigest : String := "995a53456acd1f5e8bd990bc9d9abf04a7cc8e5fef93bd2c82c83c36365872b4"

def plainText : Str := chars "hi"

theorem envelope_checked_alike_iff_sample :
    (neutralSize [textCall plainText] = 77 ∧ (neutralProposals (textLibrary plainText plainDigest) shortResponses
      [textTool] [textCall plainText]).toBool = true) ∧
    ((∀ response, parseOpenaiCompatibleResponse (textLibrary plainText plainDigest) shortResponses [textTool]
          (textEnvelope plainText) = .ok response ↔
        ∃ proposals, response = .proposals proposals ∧ neutralProposals (textLibrary plainText plainDigest)
          shortResponses [textTool] [textCall plainText] = .ok proposals) ↔
      neutralSize [textCall plainText] ≤ 300 ∨
        ∀ proposals, neutralProposals (textLibrary plainText plainDigest) shortResponses [textTool]
          [textCall plainText] ≠ .ok proposals) :=
  ⟨by decide +kernel,
    envelope_checked_alike_iff _ shortResponses _ _ _ (by decide +kernel) (loads_neutralText (by decide +kernel))⟩

/-- A text whose characters have two bytes, and six when they are escaped. -/
def accentText : Str := List.replicate 40 0xE9

/-- The SHA-256 of `{"arguments":{"text":"…"},"name":"note"}` for this text. -/
def accentDigest : String := "7434de643ed11b84bf8ce628f52a9c5507b999e177ee3c3749fca8abbd3f53d2"

/-- The envelope has 232 bytes, the neutral text 315. -/
theorem escaped_calls_are_too_long :
    ¬ ∀ (L : Library) (limits : Limits) (tools : List AdvertisedTool) (raw : Bytes) (calls : List DecodedCall),
      decodeEnvelope L limits raw = .ok (.calls calls) →
      (∀ text, canon L (neutralValue calls) = .ok text → L.loads text = .ok (neutralValue calls).reread) →
      ∀ response, parseOpenaiCompatibleResponse L limits tools raw = .ok response ↔
        ∃ proposals, response = .proposals proposals ∧ neutralProposals L limits tools calls = .ok proposals := by
  intro h
  have henvelope : decodeEnvelope (textLibrary accentText accentDigest) shortResponses (textEnvelope accentText) =
      .ok (.calls [textCall accentText]) := by
    decide +kernel
  have hproposals : (neutralProposals (textLibrary accentText accentDigest) shortResponses [textTool]
      [textCall accentText]).toBool = true := by
    decide +kernel
  have hlong : ¬(neutralText [textCall accentText]).length ≤ shortResponses.providerResponseBytes := by
    decide +kernel
  obtain ⟨proposals, haccepted⟩ := exists_ok_of_toBool hproposals
  have hparsed := (h _ _ [textTool] _ _ henvelope (loads_neutralText (by decide +kernel)) _).2
    ⟨proposals, rfl, haccepted⟩
  rw [parseOpenaiCompatibleResponse_of_calls henvelope, parseProviderResponse_of_long hlong] at hparsed
  cases hparsed

end NativeMcp.Agent
