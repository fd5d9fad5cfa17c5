import Mathlib.Data.Rat.Defs
import Mathlib.Algebra.Order.Ring.Unbundled.Rat
import NativeMcp.Agent.Limits
import NativeMcp.Json

/-!
# Python values

The values that the agent reads from JSON and builds from it.  A string is the sequence of its code points, a lone
surrogate being one; a dictionary is the list of its items in insertion order, marked if it is a `_FrozenDict`; a
finite float is its exact value.
What the agent calls and this repository does not contain is `Library`: every function of it is arbitrary.
-/

namespace NativeMcp.Agent

abbrev Str := List Nat

/-- A string literal. -/
def chars (s : String) : Str := s.toList.map Char.toNat

inductive PyFloat where
  | finite (negative : Bool) (magnitude : Rat)
  | infinite (negative : Bool)
  | nan
  deriving DecidableEq, Repr

/-- The value of a finite float. -/
def PyFloat.value? : PyFloat → Option Rat
  | .finite negative magnitude => some (if negative then -magnitude else magnitude)
  | _ => none

/-- A value; `other` is anything that JSON cannot express. -/
inductive PyVal where
  | none
  | bool (b : Bool)
  | int (i : Int)
  | float (f : PyFloat)
  | str (s : Str)
  | list (items : List PyVal)
  | tuple (items : List PyVal)
  | dict (frozen : Bool) (members : List (Str × PyVal))
  | other

/-- `json.loads` as `parse_closed_json` calls it, with the hooks that reject duplicate keys and nonfinite constants;
the text of a float; `hashlib.sha256(…).hexdigest()`. -/
structure Library where
  loads : Bytes → Except FailureClass PyVal
  floatRepr : PyFloat → Bytes
  sha256 : Bytes → Bytes

namespace PyVal

/-- `value.get(key)` of a dictionary. -/
def get? (v : PyVal) (key : String) : Option PyVal :=
  match v with
  | .dict _ m => m.lookup (chars key)
  | _ => Option.none

/-- `key in value` -/
def has (v : PyVal) (key : String) : Bool := (v.get? key).isSome

def isDict : PyVal → Bool
  | .dict .. => true
  | _ => false

def isStr : PyVal → Bool
  | .str _ => true
  | _ => false

/-- `type(value) is int` -/
def isInt : PyVal → Bool
  | .int _ => true
  | _ => false

/-- The items of a list or a tuple. -/
def sequence? : PyVal → Option (List PyVal)
  | .list items => some items
  | .tuple items => some items
  | _ => Option.none

/-- `value == s` -/
def isText (s : String) : PyVal → Bool
  | .str t => t == chars s
  | _ => false

end PyVal

/-! ### Numbers and equality -/

/-- A number, however it is represented. -/
inductive Number where
  | finite (value : Rat)
  | infinite (negative : Bool)
  | nan
  deriving DecidableEq, Repr

/-- The number that a value is, booleans included. -/
def PyVal.number? : PyVal → Option Number
  | .bool b => some (.finite (if b then 1 else 0))
  | .int i => some (.finite i)
  | .float (.finite negative magnitude) => some (.finite (if negative then -magnitude else magnitude))
  | .float (.infinite negative) => some (.infinite negative)
  | .float .nan => some .nan
  | _ => Option.none

def Number.less : Number → Number → Bool
  | .finite a, .finite b => a < b
  | .finite _, .infinite negative => !negative
  | .infinite negative, .finite _ => negative
  | .infinite a, .infinite b => a && !b
  | _, _ => false

/-- `a < b`; raises `TypeError` unless both are numbers. -/
def PyVal.less (a b : PyVal) : Except Raised Bool :=
  match a.number?, b.number? with
  | some m, some n => .ok (m.less n)
  | _, _ => .error .other

/-- `a == b` of two values one of which has no items. -/
def PyVal.scalarEq (a b : PyVal) : Bool :=
  match a, b with
  | .none, .none => true
  | .str s, .str t => s == t
  | _, _ =>
    match a.number?, b.number? with
    | some m, some n => m == n && m != .nan
    | _, _ => false

mutual

/-- `a == b` -/
def PyVal.equal : PyVal → PyVal → Bool
  | .list items, .list items' => PyVal.equalItems items items'
  | .tuple items, .tuple items' => PyVal.equalItems items items'
  | .dict _ members, .dict _ members' => members.length == members'.length && PyVal.equalMembers members members'
  | a, b => PyVal.scalarEq a b

def PyVal.equalItems : List PyVal → List PyVal → Bool
  | [], [] => true
  | v :: l, v' :: l' => PyVal.equal v v' && PyVal.equalItems l l'
  | _, _ => false

/-- Every item is in the other dictionary. -/
def PyVal.equalMembers : List (Str × PyVal) → List (Str × PyVal) → Bool
  | [], _ => true
  | (k, v) :: l, members =>
    match members.lookup k with
    | some v' => PyVal.equal v v' && PyVal.equalMembers l members
    | Option.none => false

end

/-- `type(a) is type(b)`; `other` stands for many types. -/
def PyVal.sameType : PyVal → PyVal → Bool
  | .none, .none => true
  | .bool _, .bool _ => true
  | .int _, .int _ => true
  | .float _, .float _ => true
  | .str _, .str _ => true
  | .list _, .list _ => true
  | .tuple _, .tuple _ => true
  | .dict frozen _, .dict frozen' _ => frozen == frozen'
  | _, _ => false

/-! ### Sizes of strings -/

/-- The number of bytes of a code point in UTF-8. -/
def utf8Size (c : Nat) : Nat := if c < 0x80 then 1 else if c < 0x800 then 2 else if c < 0x10000 then 3 else 4

def isSurrogate (c : Nat) : Bool := 0xD800 ≤ c && c ≤ 0xDFFF

/-- `len(s.encode("utf-8"))`, `none` where the encoding fails. -/
def encodedSize (s : Str) : Option Nat := if s.any isSurrogate then none else some (s.map utf8Size).sum

/-! ### `_canon` -/

/-- The order of strings. -/
def strLess : Str → Str → Bool
  | [], [] => false
  | [], _ :: _ => true
  | _ :: _, [] => false
  | a :: l, b :: l' => a < b || (a == b && strLess l l')

/-- Inserts an item behind those whose keys are not greater. -/
def insertItem {α : Type} (item : Str × α) : List (Str × α) → List (Str × α)
  | [] => [item]
  | p :: l => if strLess item.1 p.1 then item :: p :: l else p :: insertItem item l

/-- The items in the order of their keys. -/
def sortItems {α : Type} (l : List (Str × α)) : List (Str × α) := l.foldr insertItem []

/-- `\uXXXX` -/
def unicodeEscape (n : Nat) : Bytes :=
  bytes "\\u" ++ [Json.hexDigit (n / 4096 % 16), Json.hexDigit (n / 256 % 16), Json.hexDigit (n / 16 % 16),
    Json.hexDigit (n % 16)]

/-- What `json.dumps(…, ensure_ascii=True)` writes for one character. -/
def escapeAscii (c : Nat) : Bytes :=
  if c = 0x22 then bytes "\\\""
  else if c = 0x5C then bytes "\\\\"
  else if c = 0x0A then bytes "\\n"
  else if c = 0x0D then bytes "\\r"
  else if c = 0x09 then bytes "\\t"
  else if c = 0x0C then bytes "\\f"
  else if c = 0x08 then bytes "\\b"
  else if 0x20 ≤ c && c ≤ 0x7E then [UInt8.ofNat c]
  else if c < 0x10000 then unicodeEscape c
  else unicodeEscape (0xD800 + (c - 0x10000) / 1024) ++ unicodeEscape (0xDC00 + (c - 0x10000) % 1024)

def dumpsString (s : Str) : Bytes := bytes "\"" ++ s.flatMap escapeAscii ++ bytes "\""

def dumpsFloat (L : Library) : PyFloat → Bytes
  | .infinite false => bytes "Infinity"
  | .infinite true => bytes "-Infinity"
  | .nan => bytes "NaN"
  | f => L.floatRepr f

mutual

/-- `_canon`: `json.dumps` with sorted keys, no blanks and only ASCII; raises on a value that is not JSON. -/
def canon (L : Library) : PyVal → Except Raised Bytes
  | .none => .ok (bytes "null")
  | .bool b => .ok (bytes (if b then "true" else "false"))
  | .int i => .ok (Json.decimalInt i)
  | .float f => .ok (dumpsFloat L f)
  | .str s => .ok (dumpsString s)
  | .list items => (canonItems L items).map fun ts => bytes "[" ++ Json.commaSeparated ts ++ bytes "]"
  | .tuple items => (canonItems L items).map fun ts => bytes "[" ++ Json.commaSeparated ts ++ bytes "]"
  | .dict _ members => (canonMembers L members).map fun ts =>
      bytes "\x7b" ++ Json.commaSeparated ((sortItems ts).map fun p => dumpsString p.1 ++ bytes ":" ++ p.2) ++
        bytes "\x7d"
  | .other => .error .other

def canonItems (L : Library) : List PyVal → Except Raised (List Bytes)
  | [] => .ok []
  | v :: l => (canon L v).bind fun t => (canonItems L l).map (t :: ·)

def canonMembers (L : Library) : List (Str × PyVal) → Except Raised (List (Str × Bytes))
  | [] => .ok []
  | (k, v) :: l => (canon L v).bind fun t => (canonMembers L l).map ((k, t) :: ·)

end

end NativeMcp.Agent
