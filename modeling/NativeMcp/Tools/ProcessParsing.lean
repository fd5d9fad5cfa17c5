import NativeMcp.Json

/-!
# Parsing the texts of `/proc`

The parsers of `stat`, `status`, `statm` and `smaps_rollup`.  A loop over a text becomes a recursion over what is
left of it; the loop over the lines of `status` and of `smaps_rollup` is a fold with early exit.
-/

namespace NativeMcp.ProcessParsing

def kSpace : UInt8 := 0x20
def kTab : UInt8 := 0x09
def kNewline : UInt8 := 0x0A
def kCarriageReturn : UInt8 := 0x0D
def kColon : UInt8 := 0x3A
def kOpenParen : UInt8 := 0x28
def kCloseParen : UInt8 := 0x29

/-- `std::numeric_limits<std::uint64_t>::max()` -/
def kMaxUint64 : Nat := 2 ^ 64 - 1

/-- `" \t"` -/
def isBlank (b : UInt8) : Bool := b == kSpace || b == kTab

/-- `" \t\r\n"` -/
def isSpace (b : UInt8) : Bool := isBlank b || b == kNewline || b == kCarriageReturn

def isDigit (b : UInt8) : Bool := 0x30 ≤ b && b ≤ 0x39

/-- The number its digits denote. -/
def digitsValue (text : Bytes) : Nat := text.foldl (fun value d => value * 10 + (d.toNat - 0x30)) 0

/-- `std::from_chars` over the whole text. -/
def parseUnsigned (text : Bytes) : Option Nat :=
  if text ≠ [] ∧ text.all isDigit ∧ digitsValue text ≤ kMaxUint64 then some (digitsValue text) else none

def checkedMultiply (left right : Nat) : Option Nat :=
  if left ≠ 0 ∧ kMaxUint64 / left < right then none else some (left * right)

/-- The lines of a text, the last one perhaps empty. -/
def splitLines : Bytes → List Bytes
  | [] => [[]]
  | b :: text =>
    if b = kNewline then [] :: splitLines text
    else
      match splitLines text with
      | [] => [[b]]
      | line :: lines => (b :: line) :: lines

/-- `value.remove_suffix(1)` while its last byte is one of these. -/
def trimEnd (p : UInt8 → Bool) (value : Bytes) : Bytes := (value.reverse.dropWhile p).reverse

def valueAfterColon (line : Bytes) (key : String) : Option Bytes :=
  if (bytes key ++ [kColon]).isPrefixOf line then
    some (trimEnd (fun b => isBlank b || b == kCarriageReturn)
      ((line.drop ((bytes key).length + 1)).dropWhile isBlank))
  else none

def parseKibibytes (value : Bytes) : Option Nat :=
  let number := value.takeWhile (!isBlank ·)
  let unit := value.dropWhile (!isBlank ·)
  match parseUnsigned number with
  | none => none
  | some parsed =>
    if unit ≠ [] ∧ unit.dropWhile isBlank ≠ bytes "kB" then none else checkedMultiply parsed 1024

/-! ### `stat` -/

structure StatIdentity where
  name : Bytes
  state : Bytes
  startTimeTicks : Nat
  deriving DecidableEq, Repr

/-- At most `count` fields separated by spaces. -/
def statFields : Nat → Bytes → List Bytes
  | 0, _ => []
  | count + 1, remainder =>
    match remainder.dropWhile (· == kSpace) with
    | [] => []
    | b :: rest =>
      let field := (b :: rest).takeWhile (· != kSpace)
      match (b :: rest).dropWhile (· != kSpace) with
      | [] => [field]
      | _ :: after => field :: statFields count after

def parseStatIdentity (text : Bytes) : Option StatIdentity :=
  match text.findIdx? (· == kOpenParen), text.reverse.findIdx? (· == kCloseParen) with
  | some start, some fromEnd =>
    let close := text.length - 1 - fromEnd
    if close ≤ start ∨ text.length ≤ close + 2 then none
    else
      let fields := statFields 20 (text.drop (close + 2))
      match fields[0]?, fields[19]? with
      | some state, some startTime =>
        if state.length ≠ 1 then none
        else (parseUnsigned startTime).map fun ticks =>
          ⟨(text.drop (start + 1)).take (close - start - 1), state, ticks⟩
      | _, _ => none
  | _, _ => none

/-! ### `status` -/

structure ProcessStatusMemory where
  vmPeakBytes : Option Nat := none
  vmSizeBytes : Option Nat := none
  vmHwmBytes : Option Nat := none
  vmRssBytes : Option Nat := none
  rssAnonBytes : Option Nat := none
  rssFileBytes : Option Nat := none
  rssShmemBytes : Option Nat := none
  vmDataBytes : Option Nat := none
  vmStackBytes : Option Nat := none
  vmExecutableBytes : Option Nat := none
  vmLibraryBytes : Option Nat := none
  vmPageTableBytes : Option Nat := none
  vmSwapBytes : Option Nat := none
  hugetlbBytes : Option Nat := none
  deriving DecidableEq, Repr

/-- The parsed lines, and which kinds of line were seen. -/
structure StatusParse where
  name : Option Bytes := none
  state : Option Bytes := none
  effectiveUid : Option Nat := none
  threads : Option Nat := none
  memory : ProcessStatusMemory := {}
  seenMemory : List String := []
  deriving DecidableEq, Repr

structure StatusParseResult where
  name : Bytes
  state : Bytes
  effectiveUid : Nat
  threads : Nat
  memory : ProcessStatusMemory
  deriving DecidableEq, Repr

def kMemoryKeys : List String :=
  ["VmPeak", "VmSize", "VmHWM", "VmRSS", "RssAnon", "RssFile", "RssShmem", "VmData", "VmStk", "VmExe", "VmLib",
    "VmPTE", "VmSwap", "HugetlbPages"]

def assignStatusMetric (key : String) (value : Option Nat) (memory : ProcessStatusMemory) : ProcessStatusMemory :=
  if key = "VmPeak" then { memory with vmPeakBytes := value }
  else if key = "VmSize" then { memory with vmSizeBytes := value }
  else if key = "VmHWM" then { memory with vmHwmBytes := value }
  else if key = "VmRSS" then { memory with vmRssBytes := value }
  else if key = "RssAnon" then { memory with rssAnonBytes := value }
  else if key = "RssFile" then { memory with rssFileBytes := value }
  else if key = "RssShmem" then { memory with rssShmemBytes := value }
  else if key = "VmData" then { memory with vmDataBytes := value }
  else if key = "VmStk" then { memory with vmStackBytes := value }
  else if key = "VmExe" then { memory with vmExecutableBytes := value }
  else if key = "VmLib" then { memory with vmLibraryBytes := value }
  else if key = "VmPTE" then { memory with vmPageTableBytes := value }
  else if key = "VmSwap" then { memory with vmSwapBytes := value }
  else if key = "HugetlbPages" then { memory with hugetlbBytes := value }
  else memory

/-- `"RSDTtXZPI"` -/
def kStates : Bytes := bytes "RSDTtXZPI"

/-- A state letter, alone or followed by its description in parentheses. -/
def validState : Bytes → Bool
  | [] => false
  | letter :: rest => kStates.contains letter &&
      (rest.isEmpty || (4 ≤ rest.length + 1 && rest[0]? == some kSpace && rest[1]? == some kOpenParen &&
        rest.getLast? == some kCloseParen))

/-- At most `count` identifiers separated by blanks. -/
def uidFields : Nat → Bytes → List Bytes
  | 0, _ => []
  | count + 1, value =>
    match value.dropWhile isBlank with
    | [] => []
    | b :: rest =>
      let id := (b :: rest).takeWhile (!isBlank ·)
      match (b :: rest).dropWhile (!isBlank ·) with
      | [] => [id]
      | _ :: after => id :: uidFields count after

/-- The effective user of a `Uid` line. -/
def parseUid (value : Bytes) : Option Nat :=
  match uidFields 4 value with
  | _ :: effective :: _ => (parseUnsigned effective).filter (· ≤ 2 ^ 32 - 1)
  | _ => none

/-- The first of the keys that the line gives a value to. -/
def findMetric (keys : List String) (line : Bytes) : Option (String × Bytes) :=
  keys.findSome? fun key => (valueAfterColon line key).map (key, ·)

/-- One line of `status`. -/
def statusLine (result : StatusParse) (line : Bytes) : Option StatusParse :=
  match valueAfterColon line "Name" with
  | some value =>
    if result.name.isSome ∨ value = [] then none else some { result with name := some value }
  | none =>
    match valueAfterColon line "State" with
    | some value =>
      if result.state.isSome ∨ !validState value then none else some { result with state := some value }
    | none =>
      match valueAfterColon line "Threads" with
      | some value =>
        if result.threads.isSome then none
        else (parseUnsigned value).map fun parsed => { result with threads := some parsed }
      | none =>
        match valueAfterColon line "Uid" with
        | some value =>
          if result.effectiveUid.isSome then none
          else (parseUid value).map fun uid => { result with effectiveUid := some uid }
        | none =>
          match findMetric kMemoryKeys line with
          | some (key, value) =>
            if key ∈ result.seenMemory then none
            else (parseKibibytes value).map fun parsed =>
              { result with
                memory := assignStatusMetric key (some parsed) result.memory
                seenMemory := key :: result.seenMemory }
          | none => some result

def parseStatus (text : Bytes) : Option StatusParseResult :=
  ((splitLines text).foldlM statusLine {}).bind fun result =>
    match result.name, result.state, result.effectiveUid, result.threads with
    | some name, some state, some effectiveUid, some threads =>
      some ⟨name, state, effectiveUid, threads, result.memory⟩
    | _, _, _, _ => none

/-! ### `statm` -/

structure ProcessStatmMemory where
  virtualBytes : Nat
  residentBytes : Nat
  sharedBytes : Nat
  textBytes : Nat
  dataAndStackBytes : Nat
  deriving DecidableEq, Repr

/-- At most `count` page counts, and what is left of the text where the loop stops: at a last number that nothing
follows, the position stays at its first digit. -/
def statmPages : Nat → Bytes → Option (List Nat × Bytes)
  | 0, text => some ([], text)
  | count + 1, text =>
    match text.dropWhile isSpace with
    | [] => some ([], [])
    | b :: rest =>
      match parseUnsigned ((b :: rest).takeWhile (!isSpace ·)) with
      | none => none
      | some value =>
        match (b :: rest).dropWhile (!isSpace ·) with
        | [] => some ([value], b :: rest)
        | _ :: after => (statmPages count after).map fun r => (value :: r.1, r.2)

def parseStatm (text : Bytes) (pageSize : Nat) : Option ProcessStatmMemory :=
  match statmPages 7 text with
  | some ([size, resident, shared, text, _, data, _], rest) =>
    if rest.dropWhile isSpace ≠ [] then none
    else do
      let virtualBytes ← checkedMultiply size pageSize
      let residentBytes ← checkedMultiply resident pageSize
      let sharedBytes ← checkedMultiply shared pageSize
      let textBytes ← checkedMultiply text pageSize
      let dataAndStackBytes ← checkedMultiply data pageSize
      return ⟨virtualBytes, residentBytes, sharedBytes, textBytes, dataAndStackBytes⟩
  | _ => none

/-! ### `smaps_rollup` -/

structure ProcessSmapsRollup where
  rssBytes : Option Nat := none
  pssBytes : Option Nat := none
  pssAnonBytes : Option Nat := none
  pssFileBytes : Option Nat := none
  pssShmemBytes : Option Nat := none
  sharedCleanBytes : Option Nat := none
  sharedDirtyBytes : Option Nat := none
  privateCleanBytes : Option Nat := none
  privateDirtyBytes : Option Nat := none
  referencedBytes : Option Nat := none
  anonymousBytes : Option Nat := none
  swapBytes : Option Nat := none
  swapPssBytes : Option Nat := none
  lockedBytes : Option Nat := none
  deriving DecidableEq, Repr

def kRollupKeys : List String :=
  ["Rss", "Pss", "Pss_Anon", "Pss_File", "Pss_Shmem", "Shared_Clean", "Shared_Dirty", "Private_Clean",
    "Private_Dirty", "Referenced", "Anonymous", "Swap", "SwapPss", "Locked"]

def assignRollupMetric (key : String) (value : Option Nat) (rollup : ProcessSmapsRollup) : ProcessSmapsRollup :=
  if key = "Rss" then { rollup with rssBytes := value }
  else if key = "Pss" then { rollup with pssBytes := value }
  else if key = "Pss_Anon" then { rollup with pssAnonBytes := value }
  else if key = "Pss_File" then { rollup with pssFileBytes := value }
  else if key = "Pss_Shmem" then { rollup with pssShmemBytes := value }
  else if key = "Shared_Clean" then { rollup with sharedCleanBytes := value }
  else if key = "Shared_Dirty" then { rollup with sharedDirtyBytes := value }
  else if key = "Private_Clean" then { rollup with privateCleanBytes := value }
  else if key = "Private_Dirty" then { rollup with privateDirtyBytes := value }
  else if key = "Referenced" then { rollup with referencedBytes := value }
  else if key = "Anonymous" then { rollup with anonymousBytes := value }
  else if key = "Swap" then { rollup with swapBytes := value }
  else if key = "SwapPss" then { rollup with swapPssBytes := value }
  else if key = "Locked" then { rollup with lockedBytes := value }
  else rollup

/-- The counters so far and the keys seen. -/
structure RollupParse where
  rollup : ProcessSmapsRollup := {}
  seen : List String := []
  deriving DecidableEq, Repr

/-- One line of `smaps_rollup`. -/
def rollupLine (result : RollupParse) (line : Bytes) : Option RollupParse :=
  match findMetric kRollupKeys line with
  | some (key, value) =>
    if key ∈ result.seen then none
    else (parseKibibytes value).map fun parsed =>
      { rollup := assignRollupMetric key (some parsed) result.rollup, seen := key :: result.seen }
  | none => some result

def parseSmapsRollup (text : Bytes) : Option ProcessSmapsRollup :=
  ((splitLines text).foldlM rollupLine {}).bind fun result =>
    if result.seen = [] then none else some result.rollup

end NativeMcp.ProcessParsing
