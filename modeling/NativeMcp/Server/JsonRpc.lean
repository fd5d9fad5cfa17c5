import NativeMcp.Json

/-!
# JSON-RPC messages

Identifiers, results and errors, and the bytes they are serialized to: an envelope is written with its members in
key order, so that the texts of a result and of an error differ in their third byte.
-/

namespace NativeMcp.JsonRpc

open Json

def kParseError : Int := -32700
def kInvalidRequest : Int := -32600
def kMethodNotFound : Int := -32601
def kInvalidParams : Int := -32602
def kRequestTooLarge : Int := -32001
def kLifecycleError : Int := -32002
def kResponseTooLarge : Int := -32003

def isValidId : Json → Bool
  | .string _ => true
  | .numberInteger _ => true
  | .numberUnsigned _ => true
  | _ => false

def makeResult (id result : Json) : Json :=
  .ofPairs [("jsonrpc", .text "2.0"), ("id", id), ("result", result)]

def makeError (id : Json) (code : Int) (message : String) : Json :=
  .ofPairs [("jsonrpc", .text "2.0"), ("id", id),
    ("error", .ofPairs [("code", .numberInteger code), ("message", .text message)])]

/-- An envelope that carries exactly one of a result and an error. -/
def IsResponse (j : Json) : Prop :=
  j.find? "jsonrpc" = some (.text "2.0") ∧ (j.contains "result" = !j.contains "error")

/-! ### The members of an envelope -/

@[simp] theorem find?_id_makeResult (id result : Json) : (makeResult id result).find? "id" = some id := by
  simp [makeResult, List.lookup_cons]

@[simp] theorem find?_id_makeError (id : Json) (code : Int) (message : String) :
    (makeError id code message).find? "id" = some id := by
  simp [makeError, List.lookup_cons]

theorem isResponse_makeResult (id result : Json) : IsResponse (makeResult id result) := by
  simp [IsResponse, makeResult, contains, List.lookup_cons]

theorem isResponse_makeError (id : Json) (code : Int) (message : String) : IsResponse (makeError id code message) := by
  simp [IsResponse, makeError, contains, List.lookup_cons]

theorem isUtf8_makeResult {id result : Json} (hid : id.isUtf8 = true) (h : result.isUtf8 = true) :
    (makeResult id result).isUtf8 = true :=
  isUtf8_ofPairs (by simp [hid, h])

theorem isUtf8_makeError {id : Json} (hid : id.isUtf8 = true) (code : Int) (message : String) :
    (makeError id code message).isUtf8 = true :=
  isUtf8_ofPairs (by simp [hid, isUtf8_ofPairs, isUtf8])

/-! ### The texts of an envelope -/

/-- A result is written `{"id":…,"jsonrpc":"2.0","result":…}`. -/
theorem dump_makeResult {id result : Json} {t u : Bytes} (hid : id.dump = some t) (hr : result.dump = some u) :
    (makeResult id result).dump =
      some (bytes "\x7b\"id\":" ++ t ++ bytes ",\"jsonrpc\":\"2.0\",\"result\":" ++ u ++ bytes "\x7d") := by
  have hm : makeResult id result = .object [(bytes "id", id), (bytes "jsonrpc", .text "2.0"), (bytes "result", result)] := by
    have h1 : keyLess (bytes "id") (bytes "jsonrpc") = true := by decide +kernel
    have h2 : keyLess (bytes "result") (bytes "id") = false := by decide +kernel
    have h3 : keyLess (bytes "result") (bytes "jsonrpc") = false := by decide +kernel
    simp [makeResult, ofPairs, emplace, h1, h2, h3]
  have hj : dumpString (bytes "jsonrpc") = some (bytes "\"jsonrpc\"") := by decide +kernel
  have hi : dumpString (bytes "id") = some (bytes "\"id\"") := by decide +kernel
  have hk : dumpString (bytes "result") = some (bytes "\"result\"") := by decide +kernel
  have hv : dump (.text "2.0") = some (bytes "\"2.0\"") := by decide +kernel
  rw [hm, dump]
  have hopen : bytes "\x7b\"id\":" = bytes "\x7b" ++ bytes "\"id\"" ++ bytes ":" := by decide +kernel
  have hmid : bytes ",\"jsonrpc\":\"2.0\",\"result\":" = bytes "," ++ bytes "\"jsonrpc\"" ++ bytes ":" ++
      bytes "\"2.0\"" ++ bytes "," ++ bytes "\"result\"" ++ bytes ":" := by decide +kernel
  simp [dumpMembers, hid, hr, hj, hi, hk, hv, commaSeparated, hopen, hmid]

/-- An error is written `{"error":…,"id":…,"jsonrpc":"2.0"}`. -/
theorem dump_makeError {id : Json} {code : Int} {message : String} {t e : Bytes} (hid : id.dump = some t)
    (he : (Json.ofPairs [("code", .numberInteger code), ("message", .text message)]).dump = some e) :
    (makeError id code message).dump =
      some (bytes "\x7b\"error\":" ++ e ++ bytes ",\"id\":" ++ t ++ bytes ",\"jsonrpc\":\"2.0\"\x7d") := by
  have hm : makeError id code message = .object
      [(bytes "error", .ofPairs [("code", .numberInteger code), ("message", .text message)]), (bytes "id", id),
        (bytes "jsonrpc", .text "2.0")] := by
    have h1 : keyLess (bytes "id") (bytes "jsonrpc") = true := by decide +kernel
    have h2 : keyLess (bytes "error") (bytes "id") = true := by decide +kernel
    conv_lhs => rw [makeError, ofPairs]
    simp [emplace, h1, h2]
  have hj : dumpString (bytes "jsonrpc") = some (bytes "\"jsonrpc\"") := by decide +kernel
  have hi : dumpString (bytes "id") = some (bytes "\"id\"") := by decide +kernel
  have hk : dumpString (bytes "error") = some (bytes "\"error\"") := by decide +kernel
  have hv : dump (.text "2.0") = some (bytes "\"2.0\"") := by decide +kernel
  rw [hm, dump]
  have hopen : bytes "\x7b\"error\":" = bytes "\x7b" ++ bytes "\"error\"" ++ bytes ":" := by decide +kernel
  have hmid : bytes ",\"id\":" = bytes "," ++ bytes "\"id\"" ++ bytes ":" := by decide +kernel
  have hend : bytes ",\"jsonrpc\":\"2.0\"\x7d" =
      bytes "," ++ bytes "\"jsonrpc\"" ++ bytes ":" ++ bytes "\"2.0\"" ++ bytes "\x7d" := by decide +kernel
  simp [dumpMembers, hid, he, hj, hi, hk, hv, commaSeparated, hopen, hmid, hend]

/-- The text of an error begins as no text of a result does. -/
theorem isPrefix_dump_makeError {id : Json} {code : Int} {message : String} {r : Bytes}
    (h : (makeError id code message).dump = some r) : bytes "\x7b\"error\":" <+: r := by
  have hu : (makeError id code message).isUtf8 = true := by rw [← dump_isSome, h]; rfl
  obtain ⟨t, ht⟩ := exists_dump (isUtf8_of_find? hu (find?_id_makeError id code message))
  obtain ⟨e, he⟩ := exists_dump
    (isUtf8_ofPairs (l := [("code", .numberInteger code), ("message", .text message)]) (by simp))
  rw [dump_makeError ht he] at h
  obtain rfl := Option.some.inj h
  simp

end NativeMcp.JsonRpc
