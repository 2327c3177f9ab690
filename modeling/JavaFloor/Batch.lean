import JavaFloor.CommandLine
import JavaFloor.Feature.Update
import JavaFloor.Report
import JavaFloor.Settings

/-!
# Batches

A call of the program updates features from one archive after another. Each stands alone: a failure
is reported and the batch goes on.

* `Batch.operand` handles one operand, `Batch.operands` a list of them.
* `Batch.run` performs a whole call, from the command line to the exit code.
-/

namespace JavaFloor

/-- What a batch writes: the lines of its standard output, the text of its standard error, and
whether a feature failed. -/
structure BatchOutput where
  lines : List Bytes
  errors : Bytes
  failed : Bool
  deriving DecidableEq

namespace BatchOutput

/-- Nothing written. -/
def empty : BatchOutput := ⟨[], [], false⟩

/-- One output after another. -/
def append (a b : BatchOutput) : BatchOutput :=
  ⟨a.lines ++ b.lines, a.errors ++ b.errors, a.failed || b.failed⟩

/-- 1 if a feature failed, else 0. -/
def exitCode (o : BatchOutput) : Nat := if o.failed then 1 else 0

end BatchOutput

/-- What a call of the program leaves: its exit code, its outputs, the level of logging in force and
the scratch space. -/
structure BatchOutcome where
  exitCode : Nat
  lines : List Bytes
  errors : Bytes
  level : LogLevel
  scratch : Scratch

namespace Batch

/-- Logs a message of a severity. A NUL ends it. -/
def log (level severity : LogLevel) (message : Bytes) : Bytes :=
  Log.write level severity.severity [] 0 (Bytes.untilNul message)

/-- Handles one operand. What is no feature archive is passed over. -/
def operand (lib : Library) (json : JsonLibrary) (options : ExtractionOptions) (level : LogLevel)
    (path : Bytes) (scratch : Scratch) : BatchOutput × Scratch :=
  if isFeatureArchivePath path then
    match Feature.unknown.update lib options javaEnvironments path scratch with
    | (.ok (), feature, scratch) =>
      (⟨[(Report.success path feature).line json], [], false⟩, scratch)
    | (.error e, _, scratch) =>
      (⟨[(Report.failure path (some e.category) e.message).line json],
        log level .error e.message, true⟩, scratch)
  else
    (⟨[], log level .warn (ascii "skip: " ++ path ++ ascii " is not an .esa file"), false⟩, scratch)

/-- Handles operands in their order. -/
def operands (lib : Library) (json : JsonLibrary) (options : ExtractionOptions)
    (level : LogLevel) : List Bytes → Scratch → BatchOutput × Scratch
  | [], scratch => (.empty, scratch)
  | path :: paths, scratch =>
    let (first, scratch) := operand lib json options level path scratch
    let (others, scratch) := operands lib json options level paths scratch
    (first.append others, scratch)

/-- The settings that a command line names, none if it names no file. -/
def settings (json : JsonLibrary) (files : Bytes → Option Bytes) (config : Option Bytes) :
    Except SettingsError Settings :=
  match config with
  | some path => Settings.load json files path
  | none => .ok .none

/-- Calls the program under the name `program`, at a level of logging. The level that the command
line asks for overrules the one that is set, and that the one before. -/
def run (lib : Library) (json : JsonLibrary) (files : Bytes → Option Bytes) (program : Bytes)
    (arguments : List Bytes) (level : LogLevel) (scratch : Scratch) : BatchOutcome :=
  match Arguments.parse arguments with
  | .error .help => ⟨0, [], usage program, level, scratch⟩
  | .error .misuse => ⟨2, [], usage program, level, scratch⟩
  | .ok a =>
    match settings json files a.config with
    | .error e =>
      ⟨1, [], ascii "ERROR: " ++ Bytes.untilNul e.message ++ [Ascii.lineFeed], level, scratch⟩
    | .ok s =>
      let level := (a.level <|> s.level?).getD level
      let (output, scratch) := operands lib json s.extractionOptions level a.operands scratch
      ⟨output.exitCode, output.lines, output.errors, level, scratch⟩

end Batch

end JavaFloor
