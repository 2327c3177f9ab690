import JavaFloor.Log

/-!
# The command line

Options and operands may stand in any order; behind `--` all are operands. Short options can be
joined, and a long one can be cut short as long as no other starts the same. The options are

* `-c`, `--config`, with a value: the settings file;
* `-v`, `--verbose`, and `-q`, `--quiet`: the level of logging, of which the last one counts;
* `-h`, `--help`.

`Arguments.parse` reads a command line from left to right, up to the first thing that ends it.
-/

namespace JavaFloor

/-- What a command line asks for. -/
structure Arguments where
  config : Option Bytes
  level : Option LogLevel
  operands : List Bytes
  deriving DecidableEq

/-- What ends the reading of a command line before its end. -/
inductive Refusal
  | help
  | misuse
  deriving DecidableEq

/-- The long names of the options, each an option of its own. -/
inductive LongOption
  | config
  | verbose
  | quiet
  | help
  deriving DecidableEq

namespace LongOption

/-- The options and their names. -/
def table : List (Bytes × LongOption) :=
  [(ascii "config", config), (ascii "verbose", verbose), (ascii "quiet", quiet),
    (ascii "help", help)]

/-- The only option whose name starts with a text. No two names start alike, so that an option's own
name starts no other. -/
def ofStart? (start : Bytes) : Option LongOption :=
  match table.filter fun e => start.isPrefixOf e.1 with
  | [e] => some e.2
  | _ => none

end LongOption

namespace Arguments

/-- Nothing is asked for. -/
def none : Arguments := ⟨Option.none, Option.none, []⟩

/-- With a further operand. -/
def addOperand (a : Arguments) (operand : Bytes) : Arguments :=
  { a with operands := a.operands ++ [operand] }

/-- Reads the letters of joined short options, and tells whether the last one still wants its
value. -/
def readShort (a : Arguments) : Bytes → Except Refusal (Arguments × Bool)
  | [] => .ok (a, false)
  | c :: s =>
    if c = Ascii.byte 'v' then readShort { a with level := some .debug } s
    else if c = Ascii.byte 'q' then readShort { a with level := some .error } s
    else if c = Ascii.byte 'h' then .error .help
    else if c = Ascii.byte 'c' then
      if s = [] then .ok (a, true) else .ok ({ a with config := some s }, false)
    else .error .misuse

/-- Performs a long option that may come with a value, and tells whether it still wants one. -/
def readLong (a : Arguments) (start : Bytes) (value : Option Bytes) :
    Except Refusal (Arguments × Bool) :=
  match LongOption.ofStart? start, value with
  | some .config, some value => .ok ({ a with config := some value }, false)
  | some .config, Option.none => .ok (a, true)
  | some .verbose, Option.none => .ok ({ a with level := some .debug }, false)
  | some .quiet, Option.none => .ok ({ a with level := some .error }, false)
  | some .help, Option.none => .error .help
  | _, _ => .error .misuse

/-- Reads one argument other than `--`, and tells whether it still wants a value. -/
def readOne (a : Arguments) (argument : Bytes) : Except Refusal (Arguments × Bool) :=
  match argument with
  | c :: d :: s =>
    if c = Ascii.byte '-' then
      if d = Ascii.byte '-' then
        readLong a (s.takeWhile (· != Ascii.byte '='))
          ((s.dropWhile (· != Ascii.byte '=')).tail?)
      else readShort a (d :: s)
    else .ok (a.addOperand argument, false)
  | _ => .ok (a.addOperand argument, false)

/-- Reads on, after what was read before. -/
def readOn (a : Arguments) : List Bytes → Except Refusal Arguments
  | [] => .ok a
  | argument :: rest =>
    if argument = ascii "--" then .ok { a with operands := a.operands ++ rest }
    else
      match readOne a argument with
      | .error refusal => .error refusal
      | .ok (a, false) => readOn a rest
      | .ok (a, true) =>
        match rest with
        | [] => .error .misuse
        | value :: rest => readOn { a with config := some value } rest

/-- Reads a command line, which must have an operand. -/
def parse (arguments : List Bytes) : Except Refusal Arguments :=
  match readOn none arguments with
  | .error refusal => .error refusal
  | .ok a => if a.operands = [] then .error .misuse else .ok a

end Arguments

/-- How to call the program of that name. -/
def usage (program : Bytes) : Bytes :=
  ascii "Usage:\n" ++ ascii "   " ++ program ++
    ascii " [-c <config.json>] [-v|-q] <feature.esa>...\n" ++
    ascii "\n" ++
    ascii "Resolves the minimum Java version required by each feature archive\n" ++
    ascii "and prints one JSON object per feature on stdout.\n" ++
    ascii "\n" ++
    ascii "Options:\n" ++
    ascii "  -c, --config    JSON config (LogLevel, TempDir, MaxComponentBytes, " ++
    ascii "ComponentExtraction)\n" ++
    ascii "  -v, --verbose   Debug logging\n" ++
    ascii "  -q, --quiet     Errors only\n" ++
    ascii "  -h, --help      Show this help\n"

end JavaFloor
