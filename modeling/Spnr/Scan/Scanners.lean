import Spnr.Lib.RustStd

/-! The scanners of stdin and of session logs: `skim_string` and `extract` of `spnr-hook`,
`skim_session` of `spnr-status`, `parse_timings` of `spnr-meta`. The three crates
repeat one search loop and differ in how they take the value. -/
namespace Spnr.Scan

open RustStd

/-- `u8::is_ascii_whitespace`; the bytes it looks at are whole characters. -/
def isAsciiWhitespace (c : Char) : Bool :=
  c == ' ' || c == '\t' || c == '\n' || c == '\x0c' || c == '\r'

def needle (key : String) : List Char := '\x22' :: key.toList ++ ['\x22']

def prevOk (before : List Char) : Bool :=
  match before.dropWhile isWhitespace with
  | [] => true
  | c :: _ => c == '\x7b' || c == ','

def afterColon (rest : List Char) : Option (List Char) :=
  match rest.dropWhile isAsciiWhitespace with
  | ':' :: rest => some (rest.dropWhile isAsciiWhitespace)
  | _ => none

/-- The loop `while let Some(rel) = blob[from..].find(&needle)`, position by position: of a
match that does not count the next `skip` characters are passed over. The first match
that counts decides, whatever `value` makes of the text behind its colon. -/
def search {α : Type} (value : List Char → Option α) (needle : List Char) :
    Nat → List Char → List Char → Option α
  | _, _, [] => none
  | skip + 1, before, c :: rest => search value needle skip (c :: before) rest
  | 0, before, c :: rest =>
    if needle.isPrefixOf (c :: rest) then
      match if prevOk before then afterColon ((c :: rest).drop needle.length) else none with
      | some text => value text
      | none => search value needle (needle.length - 1) (c :: before) rest
    else search value needle 0 (c :: before) rest

def find {α : Type} (value : List Char → Option α) (blob key : String) : Option α :=
  search value (needle key) 0 [] blob.toList

def stringValue (read : List Char → Option (List Char)) : List Char → Option String
  | '\x22' :: rest => (read rest).map String.ofList
  | _ => none

def escaped : UInt8 → Char
  | 0x6e => '\n'
  | 0x74 => '\t'
  | 0x72 => '\r'
  | other => Char.ofNat other.toNat

/-- The loop over the bytes of a string: each byte becomes one character. -/
def unescape : List UInt8 → Option (List Char)
  | [] => none
  | 0x5c :: c :: rest => (unescape rest).map (escaped c :: ·)
  | 0x22 :: _ => some []
  | c :: rest => (unescape rest).map (Char.ofNat c.toNat :: ·)

def hookValue : List Char → Option String :=
  stringValue fun rest => unescape (asBytes (String.ofList rest))

def skimString (blob key : String) : Option String := find hookValue blob key

def extract (blob : String) : Option (String × String) := do
  let event ← skimString blob "hook_event_name"
  let session ← skimString blob "session_id"
  if event.isEmpty || session.isEmpty then none else some (event, session)

/-- The text up to the closing quote; what a backslash precedes does not close. -/
def rawString : List Char → Option (List Char)
  | [] => none
  | ['\x5c'] => none
  | '\x5c' :: c :: rest => (rawString rest).map fun raw => '\x5c' :: c :: raw
  | c :: rest => if c = '\x22' then some [] else (rawString rest).map (c :: ·)

def statusValue : List Char → Option String := stringValue rawString

def skimSession (blob : String) : Option String := find statusValue blob "session_id"

structure Timing where
  ts : Int
  event : String
  deriving DecidableEq

def EVENT_LABELS : List String :=
  ["user", "assistant", "system", "summary", "tool_use", "tool_result"]

def UNKNOWN : String := "unknown"

/-- The token of a value: a string with its quotes, or all up to the next comma or brace. -/
def token : List Char → Option String
  | [] => none
  | '\x22' :: rest => (rawString rest).map fun raw => String.ofList ('\x22' :: raw ++ ['\x22'])
  | value => some (trim (String.ofList (value.takeWhile fun c => c != ',' && c != '\x7d')))

def valueForKey (line key : String) : Option String := find token line key

def trimMatches (s : String) (c : Char) : String :=
  trimEndMatches (String.ofList (s.toList.dropWhile (· == c))) c

def splitSign : List Char → Bool × List Char
  | '-' :: ds => (true, ds)
  | '+' :: ds => (false, ds)
  | ds => (false, ds)

def parseI64 (s : String) : Option Int :=
  let (negative, digits) := splitSign s.toList
  if digits.all Char.isDigit then
    (String.ofList digits).toNat?.bind fun n =>
      let x : Int := if negative then -n else n
      if FitsI64 x then some x else none
  else none

def parseUnixSeconds (tok : String) : Option Int :=
  let t := trimMatches (trim tok) '\x22'
  parseI64 (String.ofList (t.toList.takeWhile (· != '.')))

def unquote (tok : String) : String := trimMatches (trim tok) '\x22'

/-- `str::lines`: the line breaks go, and a carriage return right before one. -/
def linesOf : List Char → List (List Char)
  | [] => []
  | '\n' :: rest => [] :: linesOf rest
  | '\r' :: '\n' :: rest => [] :: linesOf rest
  | c :: rest =>
    match rest, linesOf rest with
    | [], _ => [[c]]
    | _ :: _, line :: lines => (c :: line) :: lines
    | _ :: _, [] => [[c]]

def lines (data : String) : List String := (linesOf data.toList).map String.ofList

/-- The label of a line: what is no label of a turn is unknown. -/
def eventOf (tok : Option String) : String :=
  ((tok.map unquote).filter EVENT_LABELS.contains).getD UNKNOWN

def timing (line : String) : Option Timing :=
  let line := trim line
  if line.isEmpty then none
  else do
    let tsTok ← valueForKey line "timestamp"
    let ts ← parseUnixSeconds tsTok
    return { ts, event := eventOf (valueForKey line "type") }

def parseTimings (data : String) : List Timing := (lines data).filterMap timing

end Spnr.Scan
