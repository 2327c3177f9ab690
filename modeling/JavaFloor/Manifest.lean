import JavaFloor.Text.Utf8

/-!
# Manifests

The main section of a manifest is a list of fields `Name: value`, one a line, up to the first blank
line. A line that starts with a blank continues the value of the field above it. Names are compared
up to the case of ASCII letters; a repeated name keeps its first spelling and place and takes its
last value.

* `Manifest.lines` cuts a text into lines, `Line.read` tells what a line is.
* `Manifest.fields` joins continuations to the fields they continue.
* `Manifest.parse` reads a manifest, `Manifest.find?` looks a name up.
-/

namespace JavaFloor

/-- The fields of a main section, in the order in which their names first occur. -/
structure Manifest where
  attributes : List (Bytes × Bytes)
  deriving DecidableEq

/-- A manifest without fields. -/
def Manifest.empty : Manifest := ⟨[]⟩

/-- What is wrong with a line of a manifest. -/
inductive LineFault
  /-- A continuation with no field above it. -/
  | orphan
  /-- Not a name, a colon, a blank and a value. -/
  | notAField
  /-- A name of more than 70 characters. -/
  | nameTooLong
  /-- A character in a name that is no letter, digit, hyphen or underscore. -/
  | badName (name : Bytes)
  deriving DecidableEq

namespace LineFault

/-- The text shown to the user. -/
def message : LineFault → Bytes
  | orphan => ascii "continuation without header"
  | notAField => ascii "invalid header field"
  | nameTooLong => ascii "header name too long"
  | badName name => ascii "invalid header name " ++ Bytes.quoted name

end LineFault

/-- Why a text is not a manifest: a line, counted from one, and what is wrong with it. -/
structure ManifestError where
  line : Nat
  fault : LineFault
  deriving DecidableEq

namespace ManifestError

/-- The text shown to the user. -/
def message (e : ManifestError) : Bytes :=
  ascii "line " ++ Bytes.ofNat e.line ++ ascii ": " ++ e.fault.message

end ManifestError

/-- A line of a main section. -/
inductive Line
  | field (name value : Bytes)
  | continuation (more : Bytes)
  deriving DecidableEq

namespace Line

/-- The most characters a name has. -/
def maxNameLength : Nat := 70

/-- Reads a nonempty line. -/
def read (line : Bytes) : Except LineFault Line :=
  if line.head? = some Ascii.space then .ok (.continuation line.tail)
  else
    let name := line.takeWhile (· != Ascii.byte ':')
    match line.dropWhile (· != Ascii.byte ':') with
    | _ :: blank :: value =>
      if name = [] ∨ blank ≠ Ascii.space then .error .notAField
      else if maxNameLength < name.length then .error .nameTooLong
      else if name.all Ascii.isNameChar then .ok (.field name value)
      else .error (.badName name)
    | _ => .error .notAField

end Line

namespace Manifest

/-- The lines of a text, without their ends: a line feed, a carriage return, or both in the order
CR LF. The text after the last end is a line if it is not empty. Of the current line, `line` holds
the bytes read, the last one first. -/
def linesFrom (line : Bytes) : Bytes → List Bytes
  | [] => if line = [] then [] else [line.reverse]
  | c :: s =>
    if c = Ascii.lineFeed then line.reverse :: linesFrom [] s
    else if c = Ascii.carriageReturn then
      match s with
      | [] => [line.reverse]
      | d :: t =>
        if d = Ascii.lineFeed then line.reverse :: linesFrom [] t
        else line.reverse :: linesFrom [] (d :: t)
    else linesFrom (c :: line) s

/-- The lines of a text. -/
def lines (s : Bytes) : List Bytes := linesFrom [] s

/-- The lines up to the first blank one, after a byte order mark. -/
def sectionLines (s : Bytes) : List Bytes := (lines (Utf8.dropByteOrderMark s)).takeWhile (· ≠ [])

/-- Reads lines, the first of which is line `n`. -/
def readLines (n : Nat) : List Bytes → Except ManifestError (List Line)
  | [] => .ok []
  | line :: rest =>
    match Line.read line with
    | .error fault => .error ⟨n, fault⟩
    | .ok (.field name value) => (readLines (n + 1) rest).map (.field name value :: ·)
    | .ok (.continuation more) =>
      if n = 1 then .error ⟨n, .orphan⟩
      else (readLines (n + 1) rest).map (.continuation more :: ·)

/-- The fields with their continuations joined to them. -/
def fields : List Line → List (Bytes × Bytes)
  | [] => []
  | .continuation _ :: rest => fields rest
  | .field name value :: rest =>
    (name, value ++ (rest.takeWhile isContinuation).flatMap continued) :: fields rest
where
  /-- A line that goes on with the value above it. -/
  isContinuation : Line → Bool
    | .continuation _ => true
    | .field _ _ => false
  /-- What a line adds to the value above it. -/
  continued : Line → Bytes
    | .continuation more => more
    | .field _ _ => []

/-- Takes a field into a section: in the place of the field of that name, or at the end. -/
def put (name value : Bytes) : List (Bytes × Bytes) → List (Bytes × Bytes)
  | [] => [(name, value)]
  | a :: rest =>
    if Bytes.equalFold a.1 name then (a.1, value) :: rest else a :: put name value rest

/-- The section that the fields, one after another, make up. -/
def ofFields (fs : List (Bytes × Bytes)) : Manifest :=
  ⟨fs.foldl (fun attributes f => put f.1 f.2 attributes) []⟩

/-- Reads a manifest. -/
def parse (s : Bytes) : Except ManifestError Manifest :=
  (readLines 1 (sectionLines s)).map fun ls => ofFields (fields ls)

/-- The value of the first field of that name. -/
def find? (m : Manifest) (name : Bytes) : Option Bytes :=
  (m.attributes.find? fun a => Bytes.equalFold a.1 name).map (·.2)

end Manifest

end JavaFloor
