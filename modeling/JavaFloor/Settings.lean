import JavaFloor.Category
import JavaFloor.Extraction
import JavaFloor.Json.Basic
import JavaFloor.Log

/-!
# Settings

Settings come from a file that holds a JSON object. Each of the four keys may be missing.

* `Settings.ofMembers` checks the types of the values, in the order of the keys, and then the
  values.
* `Settings.load` reads the settings in a file.
* `Settings.reload` reads a file into settings that there are already. `Settings.fill` writes one
  field after another; if the file is not usable, nothing is set in the end.
-/

namespace JavaFloor

/-- What a file sets. -/
structure Settings where
  logLevel : Option Bytes
  directory : Option Bytes
  componentLimit : Option Nat
  extraction : Option Bytes
  deriving DecidableEq

/-- What is wrong with the values in a file. -/
inductive SettingsFault
  | notAString (key : Bytes)
  | notAnInteger (key : Bytes)
  | notPositive (key : Bytes)
  | unknownLevel (name : Bytes)
  | emptyDirectory
  | unknownExtraction
  deriving DecidableEq

/-- Why a file cannot be used. -/
inductive SettingsError
  | cannotOpen (path : Bytes)
  /-- The file is no JSON, for the reason that is given. -/
  | notJson (path reason : Bytes)
  | notAnObject (path : Bytes)
  | badValue (fault : SettingsFault) (path : Bytes)
  deriving DecidableEq

namespace SettingsFault

/-- The text shown to the user. -/
def message : SettingsFault → Bytes
  | notAString key => key ++ ascii " must be a string"
  | notAnInteger key => key ++ ascii " must be an integer"
  | notPositive key => key ++ ascii " must be positive"
  | unknownLevel name => ascii "unknown LogLevel '" ++ name ++ ascii "'"
  | emptyDirectory => ascii "TempDir must not be empty"
  | unknownExtraction => ascii "ComponentExtraction must be \"tempfile\" or \"memory\""

end SettingsFault

namespace SettingsError

/-- The text shown to the user. -/
def message : SettingsError → Bytes
  | cannotOpen path => ascii "Config: cannot open " ++ path
  | notJson path reason => ascii "Config: invalid JSON in " ++ path ++ ascii ": " ++ reason
  | notAnObject path => ascii "Config: root must be JSON object: " ++ path
  | badValue fault path => ascii "Config: " ++ fault.message ++ ascii " in " ++ path

/-- All of them are failures of the configuration. -/
def category (_ : SettingsError) : Category := .config

end SettingsError

namespace ExtractionMode

/-- The mode of that name. -/
def ofName? (name : Bytes) : Option ExtractionMode :=
  if name = ascii "tempfile" then some .tempFile
  else if name = ascii "memory" then some .memory
  else none

end ExtractionMode

namespace Settings

/-- Nothing is set. -/
def none : Settings := ⟨Option.none, Option.none, Option.none, Option.none⟩

/-- The string under a key, if there is a value. -/
def string? (members : List (Bytes × JsonValue)) (key : Bytes) :
    Except SettingsFault (Option Bytes) :=
  match JsonValue.member? members key with
  | Option.none => .ok Option.none
  | some (.string s) => .ok (some s)
  | some _ => .error (.notAString key)

/-- The positive number under a key, if there is a value. The number is taken as a signed one of 64
bits. -/
def positive? (members : List (Bytes × JsonValue)) (key : Bytes) :
    Except SettingsFault (Option Nat) :=
  match JsonValue.member? members key with
  | Option.none => .ok Option.none
  | some (.integer n) =>
    let n := n.bmod UInt64.size
    if 0 < n then .ok (some n.toNat) else .error (.notPositive key)
  | some _ => .error (.notAnInteger key)

/-- The settings with values of the right types. -/
def read (members : List (Bytes × JsonValue)) : Except SettingsFault Settings := do
  let logLevel ← string? members (ascii "LogLevel")
  let directory ← string? members (ascii "TempDir")
  let componentLimit ← positive? members (ascii "MaxComponentBytes")
  let extraction ← string? members (ascii "ComponentExtraction")
  return ⟨logLevel, directory, componentLimit, extraction⟩

/-- What is wrong with settings whose types are right. -/
def fault? (s : Settings) : Option SettingsFault :=
  (s.logLevel.filter fun name => (LogLevel.ofName? name).isNone).map .unknownLevel
  <|> (s.directory.filter (·.isEmpty)).map (fun _ => .emptyDirectory)
  <|> (s.extraction.filter fun name => (ExtractionMode.ofName? name).isNone).map
    (fun _ => .unknownExtraction)

/-- The settings that the members of an object make. -/
def ofMembers (members : List (Bytes × JsonValue)) : Except SettingsFault Settings :=
  match read members with
  | .error fault => .error fault
  | .ok s =>
    match s.fault? with
    | some fault => .error fault
    | Option.none => .ok s

/-- The members of the object in the file at a path, given the contents of files. -/
def object (json : JsonLibrary) (files : Bytes → Option Bytes) (path : Bytes) :
    Except SettingsError (List (Bytes × JsonValue)) :=
  match files path with
  | Option.none => .error (.cannotOpen path)
  | some text =>
    match json.parse text with
    | .error reason => .error (.notJson path reason)
    | .ok (.object members) => .ok members
    | .ok _ => .error (.notAnObject path)

/-- The settings in the file at a path. -/
def load (json : JsonLibrary) (files : Bytes → Option Bytes) (path : Bytes) :
    Except SettingsError Settings :=
  match object json files path with
  | .error e => .error e
  | .ok members => (ofMembers members).mapError (.badValue · path)

/-- Fails if something is wrong with the values. -/
def check (s : Settings) : Except SettingsFault Unit :=
  match s.fault? with
  | some fault => .error fault
  | Option.none => .ok ()

/-- Writes what the members of an object set over the settings there are, one field after another,
and then checks all of them. A key that is missing leaves its field. What was written before a fault
stays. -/
def fill (members : List (Bytes × JsonValue)) : ExceptT SettingsFault (StateM Settings) Unit := do
  let logLevel ← string? members (ascii "LogLevel")
  modify fun s => { s with logLevel := logLevel <|> s.logLevel }
  let directory ← string? members (ascii "TempDir")
  modify fun s => { s with directory := directory <|> s.directory }
  let componentLimit ← positive? members (ascii "MaxComponentBytes")
  modify fun s => { s with componentLimit := componentLimit <|> s.componentLimit }
  let extraction ← string? members (ascii "ComponentExtraction")
  modify fun s => { s with extraction := extraction <|> s.extraction }
  check (← get)

/-- With no field set. -/
def reset (s : Settings) : Settings :=
  { s with
    logLevel := Option.none
    directory := Option.none
    componentLimit := Option.none
    extraction := Option.none }

/-- Reads the file at a path into the settings there are. They are reset before, and once more if
the file is not usable. -/
def reload (json : JsonLibrary) (files : Bytes → Option Bytes) (path : Bytes) (s : Settings) :
    Except SettingsError Unit × Settings :=
  let s := s.reset
  match object json files path with
  | .error e => (.error e, s)
  | .ok members =>
    match (fill members).run.run s with
    | (.ok (), s) => (.ok (), s)
    | (.error fault, s) => (.error (.badValue fault path), s.reset)

/-- The level of logging that is set. -/
def level? (s : Settings) : Option LogLevel := s.logLevel.bind LogLevel.ofName?

/-- What extractions may use. -/
def extractionOptions (s : Settings) : ExtractionOptions :=
  let standard := ExtractionOptions.standard
  { standard with
    directory := s.directory.getD standard.directory
    componentLimit := (s.componentLimit.map UInt64.ofNat).getD standard.componentLimit
    mode := (s.extraction.bind ExtractionMode.ofName?).getD standard.mode }

end Settings

end JavaFloor
