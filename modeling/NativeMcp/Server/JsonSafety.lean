import NativeMcp.Json

/-!
# The JSON library and the preflight of its input

`Nlohmann` is what the server uses of the JSON parser: the SAX events of a text and the value `Json::parse` returns.
`preflightJson` is the fold of `SafetySax` over the events, which counts tokens and open containers and keeps one
set of keys for each open object.
-/

namespace NativeMcp

/-- A callback of `nlohmann::json_sax`. -/
inductive SaxEvent where
  | null
  | boolean
  | numberInteger
  | numberUnsigned
  | numberFloat
  | string
  | binary
  | startObject
  | key (value : Bytes)
  | endObject
  | startArray
  | endArray
  | parseError
  deriving DecidableEq, Repr

/-- The parser of `nlohmann::json`: the events `sax_parse` delivers as long as no callback returns false, and
`parse` without exceptions, `none` for a discarded value.  The lexer accepts only UTF-8 strings. -/
structure Nlohmann where
  saxEvents : Bytes → List SaxEvent
  parse : Bytes → Option Json
  isUtf8_of_parse : ∀ line m, parse line = some m → m.isUtf8 = true

inductive JsonPreflightStatus where
  | ok
  | invalid
  | tooDeep
  | tooManyTokens
  | duplicateKey
  deriving DecidableEq, Repr

structure JsonSafetyLimits where
  maxNestingDepth : Nat := 64
  maxTokens : Nat := 32 * 1024
  deriving DecidableEq, Repr

/-- `SafetySax`. -/
structure SafetySax where
  status : JsonPreflightStatus := .ok
  depth : Nat := 0
  tokenCount : Nat := 0
  objectKeys : List (List Bytes) := []
  deriving DecidableEq, Repr

namespace SafetySax

/-- A callback's return value and the handler after it. -/
abbrev Callback := Bool × SafetySax

def countToken (limits : JsonSafetyLimits) (sax : SafetySax) : Callback :=
  if limits.maxTokens ≤ sax.tokenCount then (false, { sax with status := .tooManyTokens })
  else (true, { sax with tokenCount := sax.tokenCount + 1 })

def beginContainer (limits : JsonSafetyLimits) (sax : SafetySax) : Callback :=
  match countToken limits sax with
  | (false, sax) => (false, sax)
  | (true, sax) =>
    if limits.maxNestingDepth ≤ sax.depth then (false, { sax with status := .tooDeep })
    else (true, { sax with depth := sax.depth + 1 })

def startObject (limits : JsonSafetyLimits) (sax : SafetySax) : Callback :=
  match beginContainer limits sax with
  | (false, sax) => (false, sax)
  | (true, sax) => (true, { sax with objectKeys := [] :: sax.objectKeys })

def key (limits : JsonSafetyLimits) (value : Bytes) (sax : SafetySax) : Callback :=
  match countToken limits sax with
  | (false, sax) => (false, sax)
  | (true, sax) =>
    match sax.objectKeys with
    | [] => (false, { sax with status := .invalid })
    | keys :: outer =>
      if value ∈ keys then (false, { sax with status := .duplicateKey })
      else (true, { sax with objectKeys := (value :: keys) :: outer })

def endObject (sax : SafetySax) : Callback :=
  match sax.objectKeys with
  | [] => (false, { sax with status := .invalid })
  | _ :: outer =>
    if sax.depth = 0 then (false, { sax with status := .invalid })
    else (true, { sax with objectKeys := outer, depth := sax.depth - 1 })

def endArray (sax : SafetySax) : Callback :=
  if sax.depth = 0 then (false, { sax with status := .invalid })
  else (true, { sax with depth := sax.depth - 1 })

/-- An error keeps the status of a violation found before it. -/
def parseError (sax : SafetySax) : Callback :=
  (false, if sax.status = .ok then { sax with status := .invalid } else sax)

def handle (limits : JsonSafetyLimits) (sax : SafetySax) : SaxEvent → Callback
  | .null | .boolean | .numberInteger | .numberUnsigned | .numberFloat | .string | .binary => countToken limits sax
  | .startObject => startObject limits sax
  | .key value => key limits value sax
  | .endObject => endObject sax
  | .startArray => beginContainer limits sax
  | .endArray => endArray sax
  | .parseError => parseError sax

/-- `sax_parse`: the events up to the first callback that returns false. -/
def saxParse (limits : JsonSafetyLimits) : SafetySax → List SaxEvent → Callback
  | sax, [] => (true, sax)
  | sax, e :: es =>
    match handle limits sax e with
    | (false, sax) => (false, sax)
    | (true, sax) => saxParse limits sax es

end SafetySax

def preflightJson (N : Nlohmann) (text : Bytes) (limits : JsonSafetyLimits) : JsonPreflightStatus :=
  if limits.maxNestingDepth = 0 ∨ limits.maxTokens = 0 then .invalid
  else
    match SafetySax.saxParse limits {} (N.saxEvents text) with
    | (false, sax) => if sax.status = .ok then .invalid else sax.status
    | (true, sax) => sax.status

end NativeMcp
