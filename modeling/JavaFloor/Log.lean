import JavaFloor.Bytes

/-!
# Log lines

A logger has a level, and lets a line through if its severity is at least that level. At the level
`none` it lets nothing through.
-/

namespace JavaFloor

/-- The levels of logging. -/
inductive LogLevel
  | debug
  | info
  | warn
  | error
  | none
  deriving DecidableEq

namespace LogLevel

/-- The level of that name, in any case. -/
def ofName? (name : Bytes) : Option LogLevel :=
  let name := Bytes.lower name
  if name = ascii "debug" then some debug
  else if name = ascii "info" then some info
  else if name = ascii "warn" ∨ name = ascii "warning" then some warn
  else if name = ascii "error" then some error
  else if name = ascii "none" then some none
  else Option.none

/-- The name of a level. -/
def name : LogLevel → Bytes
  | debug => ascii "debug"
  | info => ascii "info"
  | warn => ascii "warn"
  | error => ascii "error"
  | none => ascii "none"

/-- The severity that a level lets through, and any above it. -/
def severity : LogLevel → Int
  | debug => 0
  | info => 1
  | warn => 2
  | error => 3
  | none => 4

end LogLevel

namespace Log

/-- The mark of a severity. -/
def mark : Int → Bytes
  | 0 => ascii "DEBUG"
  | 1 => ascii "INFO"
  | 2 => ascii "WARN"
  | 3 => ascii "ERROR"
  | _ => ascii "LOG"

/-- The place that a line names: a file, without the directories it is in, and a line of it. Without
file or line it names none. -/
def place (file : Bytes) (line : Int) : Bytes :=
  if file ≠ [] ∧ 0 < line then
    ascii "[" ++ Bytes.afterLast Ascii.slash file ++ ascii ":" ++ Bytes.ofNat line.toNat ++
      ascii "] "
  else []

/-- Whether a logger lets a severity through. -/
def passes (level : LogLevel) (severity : Int) : Bool :=
  decide (level.severity ≤ severity) && level != .none

/-- What is written for a message from a line of a file, empty if the level suppresses it. -/
def write (level : LogLevel) (severity : Int) (file : Bytes) (line : Int) (message : Bytes) :
    Bytes :=
  if passes level severity then
    ascii "[" ++ mark severity ++ ascii "] " ++ place file line ++ message ++ [Ascii.lineFeed]
  else []

end Log

end JavaFloor
