import JavaFloor.Batch
import JavaFloor.Proofs.CommandLine
import JavaFloor.Proofs.Feature.FileNames
import JavaFloor.Proofs.Feature.Outcomes
import JavaFloor.Proofs.Report
import Mathlib.Data.List.Forall2

/-!
# Batches operand by operand

What a batch prints for an operand does not depend on the operands before it, whether they failed or
not: each is handled on its own and leaves the scratch space as it was. This holds with any library
that reads archives, any that writes JSON, and on any device.

* `Batch.operand_of_not_archive`, `Batch.operand_of_ok` and `Batch.operand_of_error` say what is
  printed for one operand.
* `Batch.operands_append`: the output for a list of operands is put together from those for its
  parts.
* `isFeatureArchivePath_iff`: which operands are paths of feature archives.
* `Batch.Reported` says what the line for an operand is, by the members of the object.
* `BatchOutput.Alike` compares outputs that come from different scratch spaces, in which temporary
  files have different numbers: `Batch.operand_alike`, `Batch.operands_alike`.
* `Batch.Prints` is what a call of the program prints for some operands under given options, and
  `Batch.prints_operands` puts all of this together.
-/

namespace JavaFloor

/-- Two lines that differ at most in the number of a temporary file that a message names. -/
inductive Report.SameLine (json : JsonLibrary) (options : ExtractionOptions) : Bytes → Bytes → Prop
  | refl (line : Bytes) : SameLine json options line line
  | numbered {stem : Bytes}
      (hstem : Scratch.stem? options.directory Extraction.tempFileName = some stem)
      (path category front behind : Bytes) (m n : Nat) :
      SameLine json options
        (json.dump (.object
          [(ascii "category", .string category),
            (ascii "error", .string (front ++ (stem ++ Scratch.serial m) ++ behind)),
            (ascii "path", .string path)]))
        (json.dump (.object
          [(ascii "category", .string category),
            (ascii "error", .string (front ++ (stem ++ Scratch.serial n) ++ behind)),
            (ascii "path", .string path)]))

/-- A path that ends in `.esa`, with a byte of a name in front of that. -/
def NamesArchive (path : Bytes) : Prop :=
  ∃ front c, path = front ++ c :: ascii ".esa" ∧ c ≠ Ascii.slash

/-- Such are the paths of feature archives. -/
theorem isFeatureArchivePath_iff {path : Bytes} :
    isFeatureArchivePath path = true ↔ NamesArchive path := by
  rw [NamesArchive, isFeatureArchivePath, Bool.and_eq_true, decide_eq_true_iff, Bytes.endsWith,
    List.isSuffixOf_iff_suffix]
  constructor
  · rintro ⟨hlength, name, hname⟩
    obtain ⟨directory, hpath⟩ := Bytes.exists_afterLast Ascii.slash path
    have hslash := Bytes.notMem_afterLast Ascii.slash path
    rw [← hname] at hlength hpath hslash
    rcases name.eq_nil_or_concat with rfl | ⟨front, c, rfl⟩
    · exact absurd hlength (by decide)
    · refine ⟨directory ++ front, c, hpath.trans (by simp), ?_⟩
      rintro rfl
      simp at hslash
  · rintro ⟨front, c, rfl, hc⟩
    have hslash : Ascii.slash ∉ c :: ascii ".esa" := by
      rw [List.mem_cons, not_or]
      exact ⟨hc.symm, by decide⟩
    have hfour : (ascii ".esa").length = 4 := rfl
    rw [Bytes.afterLast_append front hslash, List.length_append, List.length_cons, hfour]
    exact ⟨by omega, (List.suffix_cons c _).trans (List.suffix_append _ _)⟩

/-- An update fails in one of four categories. -/
theorem UpdateError.name_category_mem (e : UpdateError) : e.category.name ∈
    [ascii "archive-io", ascii "missing-manifest", ascii "malformed-requirement",
      ascii "resolution-conflict"] := by
  cases e with
  | collection error =>
    rcases error.category_eq_or with h | h <;> simp [category, h, Category.name]
  | malformed | conflict => simp [category, Category.name]

/-! ## Outputs -/

namespace BatchOutput

variable {json : JsonLibrary} {options : ExtractionOptions} {o o' p p' : BatchOutput}

theorem empty_append (o : BatchOutput) : empty.append o = o := by simp [empty, append]

theorem append_empty (o : BatchOutput) : o.append empty = o := by simp [empty, append]

theorem append_assoc (o p q : BatchOutput) : (o.append p).append q = o.append (p.append q) := by
  simp [append, Bool.or_assoc]

theorem exitCode_append (o p : BatchOutput) :
    (o.append p).exitCode = max o.exitCode p.exitCode := by
  unfold exitCode append
  cases o.failed <;> cases p.failed <;> rfl

/-- Outputs that report the same, but for the numbers of temporary files. -/
structure Alike (json : JsonLibrary) (options : ExtractionOptions) (o o' : BatchOutput) : Prop where
  lines : List.Forall₂ (Report.SameLine json options) o.lines o'.lines
  failed : o.failed = o'.failed

namespace Alike

theorem refl (json : JsonLibrary) (options : ExtractionOptions) (o : BatchOutput) :
    o.Alike json options o :=
  ⟨List.forall₂_same.2 fun line _ => .refl line, rfl⟩

theorem append (h : o.Alike json options o') (hp : p.Alike json options p') :
    (o.append p).Alike json options (o'.append p') :=
  ⟨List.rel_append h.lines hp.lines, congrArg₂ or h.failed hp.failed⟩

theorem exitCode_eq (h : o.Alike json options o') : o.exitCode = o'.exitCode := by
  rw [exitCode, exitCode, h.failed]

end Alike

end BatchOutput

namespace Batch

/-! ## One operand -/

section

variable {lib : Library} {json : JsonLibrary} {options : ExtractionOptions} {level : LogLevel}
  {path : Bytes} {s s' : Scratch}

/-- What is no feature archive is passed over. -/
theorem operand_of_not_archive (h : isFeatureArchivePath path = false) :
    operand lib json options level path s =
      (⟨[], log level .warn (ascii "skip: " ++ path ++ ascii " is not an .esa file"), false⟩,
        s) := by
  rw [operand, h]
  rfl

/-- The success of an update is reported. -/
theorem operand_of_ok (h : isFeatureArchivePath path = true)
    (hok : (Feature.unknown.update lib options javaEnvironments path s).1 = .ok ()) :
    operand lib json options level path s =
      (⟨[(Report.success path
        (Feature.unknown.update lib options javaEnvironments path s).2.1).line json], [], false⟩,
        s) := by
  have hscratch := Feature.update_scratch lib options javaEnvironments path .unknown s
  rw [operand, if_pos h]
  generalize Feature.unknown.update lib options javaEnvironments path s = outcome at hok hscratch ⊢
  obtain ⟨_, f, left⟩ := outcome
  subst hok hscratch
  rfl

/-- So is its failure. -/
theorem operand_of_error {e : UpdateError} (h : isFeatureArchivePath path = true)
    (herror : (Feature.unknown.update lib options javaEnvironments path s).1 = .error e) :
    operand lib json options level path s =
      (⟨[(Report.failure path (some e.category) e.message).line json],
        log level .error e.message, true⟩, s) := by
  have hscratch := Feature.update_scratch lib options javaEnvironments path .unknown s
  rw [operand, if_pos h]
  generalize Feature.unknown.update lib options javaEnvironments path s = outcome at *
  obtain ⟨_, f, left⟩ := outcome
  subst herror hscratch
  rfl

/-- What an operand comes to: the lines that are printed for it, and the exit code. There is no
line, or one that is an object with these members. -/
inductive Reported (lib : Library) (json : JsonLibrary) (options : ExtractionOptions) (s : Scratch)
    (path : Bytes) : List Bytes → Nat → Prop
  | passedOver (h : ¬ NamesArchive path) : Reported lib json options s path [] 0
  | success {f : Feature} (h : NamesArchive path)
      (hok : Feature.unknown.update lib options javaEnvironments path s = (.ok (), f, s)) :
      Reported lib json options s path
        [json.dump (.object
          [(ascii "minimumJavaVersion", match f.java with
              | some j => .string j.minimum
              | none => .null),
            (ascii "name", .string f.name),
            (ascii "path", .string path),
            (ascii "rawRequirements", match f.java.bind (·.directives) with
              | some d => .object (d.entries.map fun e => (e.1, .string e.2))
              | none => .null)])] 0
  | failure {e : UpdateError} (h : NamesArchive path)
      (herror : (Feature.unknown.update lib options javaEnvironments path s).1 = .error e)
      (hcategory : e.category.name ∈ [ascii "archive-io", ascii "missing-manifest",
        ascii "malformed-requirement", ascii "resolution-conflict"]) :
      Reported lib json options s path
        [json.dump (.object
          [(ascii "category", .string e.category.name),
            (ascii "error", .string e.message),
            (ascii "path", .string path)])] 1

/-- An operand is handled by what it comes to. -/
theorem operand_reported (lib : Library) (json : JsonLibrary) (options : ExtractionOptions)
    (level : LogLevel) (path : Bytes) (s : Scratch) :
    Reported lib json options s path (operand lib json options level path s).1.lines
      (operand lib json options level path s).1.exitCode := by
  cases h : isFeatureArchivePath path with
  | false =>
    rw [operand_of_not_archive h]
    exact .passedOver fun hnames => by simp [isFeatureArchivePath_iff.2 hnames] at h
  | true =>
    have hnames : NamesArchive path := isFeatureArchivePath_iff.1 h
    cases hu : (Feature.unknown.update lib options javaEnvironments path s).1 with
    | ok =>
      rw [operand_of_ok h hu, Report.line_success]
      exact .success hnames (Prod.ext hu (Prod.ext rfl (Feature.update_scratch _ _ _ _ _ _)))
    | error e =>
      rw [operand_of_error h hu, Report.line_failure]
      exact .failure hnames hu e.name_category_mem

/-- What is printed for an operand has no line feed in it. -/
theorem lineFeed_notMem_operand (hjson : json.WritesLines) (lib : Library)
    (options : ExtractionOptions) (level : LogLevel) (path : Bytes) (s : Scratch) :
    ∀ line ∈ (operand lib json options level path s).1.lines, Ascii.lineFeed ∉ line := by
  rw [operand]
  split
  · split <;> simpa using Report.lineFeed_notMem_line hjson _
  · exact nofun

/-- No operand changes the scratch space. -/
@[simp]
theorem operand_scratch (lib : Library) (json : JsonLibrary) (options : ExtractionOptions)
    (level : LogLevel) (path : Bytes) (s : Scratch) :
    (operand lib json options level path s).2 = s := by
  cases h : isFeatureArchivePath path with
  | false => rw [operand_of_not_archive h]
  | true =>
    cases hu : (Feature.unknown.update lib options javaEnvironments path s).1 with
    | ok => rw [operand_of_ok h hu]
    | error e => rw [operand_of_error h hu]

/-- **An operand is reported alike** where temporary files can be made alike. -/
theorem operand_alike (h : s.Alike options s') (lib : Library) (json : JsonLibrary)
    (level : LogLevel) (path : Bytes) :
    (operand lib json options level path s).1.Alike json options
      (operand lib json options level path s').1 := by
  cases hpath : isFeatureArchivePath path with
  | false =>
    rw [operand_of_not_archive hpath, operand_of_not_archive hpath]
    exact .refl _ _ _
  | true =>
    obtain ⟨hfeature, houtcome | ⟨stem, m, n, e, hstem, herror, herror'⟩⟩ :=
      Feature.update_alike h lib javaEnvironments path .unknown
    · cases hu : (Feature.unknown.update lib options javaEnvironments path s').1 with
      | ok =>
        rw [operand_of_ok hpath (houtcome.trans hu), operand_of_ok hpath hu, hfeature]
        exact .refl _ _ _
      | error e =>
        rw [operand_of_error hpath (houtcome.trans hu), operand_of_error hpath hu]
        exact .refl _ _ _
    · rw [operand_of_error hpath herror, operand_of_error hpath herror']
      refine ⟨List.forall₂_cons.2 ⟨?_, .nil⟩, rfl⟩
      rw [Report.line_failure, Report.line_failure, UpdateError.category_atPath,
        UpdateError.category_atPath]
      rcases e.quotesAtMost_message with hsame | ⟨front, behind, hquotes⟩
      · have hmessage : (e.atPath (stem ++ Scratch.serial m)).message =
            (e.atPath (stem ++ Scratch.serial n)).message := hsame _ _
        rw [hmessage]
        exact .refl _
      · have hmessage : ∀ file, (e.atPath file).message = front ++ file ++ behind := hquotes
        rw [hmessage, hmessage]
        exact .numbered hstem path (Category.nameOf (some e.category)) front behind m n

/-! ## Operands in a row -/

/-- The output for the first operand comes in front of that for the others, to which it is nothing
what the first one was. -/
theorem operands_cons (lib : Library) (json : JsonLibrary) (options : ExtractionOptions)
    (level : LogLevel) (path : Bytes) (paths : List Bytes) (s : Scratch) :
    (operands lib json options level (path :: paths) s).1 =
      (operand lib json options level path s).1.append
        (operands lib json options level paths s).1 := by
  have hscratch := operand_scratch lib json options level path s
  rw [operands]
  generalize operand lib json options level path s = first at *
  obtain ⟨first, left⟩ := first
  subst hscratch
  rfl

/-- **The output for operands in a row is put together from the outputs for its parts.** -/
theorem operands_append (lib : Library) (json : JsonLibrary) (options : ExtractionOptions)
    (level : LogLevel) (A B : List Bytes) (s : Scratch) :
    (operands lib json options level (A ++ B) s).1 =
      (operands lib json options level A s).1.append (operands lib json options level B s).1 := by
  induction A with
  | nil => exact (BatchOutput.empty_append _).symm
  | cons path A ih =>
    rw [List.cons_append, operands_cons, ih, operands_cons, BatchOutput.append_assoc]

theorem operands_singleton (lib : Library) (json : JsonLibrary) (options : ExtractionOptions)
    (level : LogLevel) (path : Bytes) (s : Scratch) :
    (operands lib json options level [path] s).1 = (operand lib json options level path s).1 := by
  rw [operands_cons]
  exact BatchOutput.append_empty _

theorem operands_alike (h : s.Alike options s') (lib : Library) (json : JsonLibrary)
    (level : LogLevel) (paths : List Bytes) :
    (operands lib json options level paths s).1.Alike json options
      (operands lib json options level paths s').1 := by
  induction paths with
  | nil => exact .refl _ _ _
  | cons path paths ih =>
    rw [operands_cons, operands_cons]
    exact (operand_alike h lib json level path).append ih

end

/-! ## Calls -/

section

variable {lib : Library} {json : JsonLibrary} {files : Bytes → Option Bytes} {program : Bytes}
  {a : Arguments} {level : LogLevel} {s : Scratch} {st : Settings} {paths lines : List Bytes}
  {code : Nat}

/-- What the program prints for operands, and with which exit code, if it is called with the options
of a command line. It is not called without operands; that counts as printing nothing. -/
inductive Prints (lib : Library) (json : JsonLibrary) (files : Bytes → Option Bytes)
    (program : Bytes) (a : Arguments) (level : LogLevel) (s : Scratch) :
    List Bytes → List Bytes → Nat → Prop
  | nothing : Prints lib json files program a level s [] [] 0
  | call {arguments paths : List Bytes}
      (hparse : Arguments.parse arguments = .ok { a with operands := paths }) :
      Prints lib json files program a level s paths
        (run lib json files program arguments level s).lines
        (run lib json files program arguments level s).exitCode

/-- The level of logging in force during a call. -/
def levelOf (a : Arguments) (st : Settings) (level : LogLevel) : LogLevel :=
  (a.level <|> st.level?).getD level

/-- A call prints the output for its operands. -/
theorem Prints.eq (hsettings : settings json files a.config = .ok st)
    (h : Prints lib json files program a level s paths lines code) :
    lines = (operands lib json st.extractionOptions (levelOf a st level) paths s).1.lines ∧
      code =
        (operands lib json st.extractionOptions (levelOf a st level) paths s).1.exitCode := by
  cases h with
  | nothing => exact ⟨rfl, rfl⟩
  | call hparse => simp [run, hparse, hsettings, levelOf]

/-- **A batch is composed of its operands.**

Let a command line ask for `a`, with settings that load. Then the program can be called with the
same options on any operands. On the operands `front` followed by `behind` it prints what it prints
on `front` and then what it prints on `behind`, and its exit code is the maximum of the two; the
calls may start from different scratch spaces in which temporary files can be made alike, and then
the lines are the same but for the numbers of these files. On one operand nothing is printed if that
is no feature archive; otherwise there is one object, of a success or, with the exit code 1, of a
failure with its error and category, and no line feed in it if the library writes none. -/
theorem prints_operands (lib : Library) (json : JsonLibrary) (files : Bytes → Option Bytes)
    (program : Bytes) (level : LogLevel) {arguments : List Bytes}
    (hparse : Arguments.parse arguments = .ok a)
    (hsettings : settings json files a.config = .ok st) :
    (∀ s paths, ∃ lines code, Prints lib json files program a level s paths lines code) ∧
    (∀ {s s₁ s₂ front behind lines lines₁ lines₂ code code₁ code₂},
      s.Alike st.extractionOptions s₁ → s.Alike st.extractionOptions s₂ →
      Prints lib json files program a level s (front ++ behind) lines code →
      Prints lib json files program a level s₁ front lines₁ code₁ →
      Prints lib json files program a level s₂ behind lines₂ code₂ →
      List.Forall₂ (Report.SameLine json st.extractionOptions) lines (lines₁ ++ lines₂) ∧
        (s = s₁ → s = s₂ → lines = lines₁ ++ lines₂) ∧ code = max code₁ code₂) ∧
    ∀ {s path lines code}, Prints lib json files program a level s [path] lines code →
      Reported lib json st.extractionOptions s path lines code ∧
        (json.WritesLines → ∀ line ∈ lines, Ascii.lineFeed ∉ line) := by
  refine ⟨fun s paths => ?_, @fun s s₁ s₂ front behind _ _ _ _ _ _
    hs₁ hs₂ h h₁ h₂ => ?_, @fun s path _ _ h => ?_⟩
  · cases paths with
    | nil => exact ⟨_, _, .nothing⟩
    | cons path paths =>
      have hwritable := Arguments.isWritable_of_parse hparse
      exact ⟨_, _, .call (Arguments.parse_write (a := { a with operands := path :: paths })
        hwritable (List.cons_ne_nil _ _))⟩
  · obtain ⟨rfl, rfl⟩ := h.eq hsettings
    obtain ⟨rfl, rfl⟩ := h₁.eq hsettings
    obtain ⟨rfl, rfl⟩ := h₂.eq hsettings
    have halike := (operands_alike hs₁ lib json (levelOf a st level) front).append
      (operands_alike hs₂ lib json (levelOf a st level) behind)
    rw [operands_append]
    refine ⟨halike.lines, ?_, ?_⟩
    · rintro rfl rfl
      rfl
    · rw [halike.exitCode_eq, BatchOutput.exitCode_append]
  · obtain ⟨rfl, rfl⟩ := h.eq hsettings
    rw [operands_singleton]
    exact ⟨operand_reported lib json st.extractionOptions (levelOf a st level) path s,
      fun hjson => lineFeed_notMem_operand hjson lib st.extractionOptions (levelOf a st level) path
        s⟩

/-- A failing, a skipped and a succeeding operand, with the failure told of another temporary file
when the first two are handled by a call of their own. -/
theorem prints_operands_mixed : ∃ (lib : Library) (a : Arguments) (s s' : Scratch)
    (lines lines₁ lines₂ : List Bytes),
    Arguments.parse [ascii "bad.esa", ascii "-q", ascii "note.txt", ascii "good.esa"] = .ok a ∧
      settings .standard (fun _ => none) a.config = .ok .none ∧
      Prints lib .standard (fun _ => none) [] a .info s a.operands lines 1 ∧
      Prints lib .standard (fun _ => none) [] a .info s' [ascii "bad.esa", ascii "note.txt"] lines₁
        1 ∧
      Prints lib .standard (fun _ => none) [] a .info s [ascii "good.esa"] lines₂ 0 ∧
      lines.length = 2 ∧ lines₁.length = 1 ∧ lines ≠ lines₁ ++ lines₂ ∧
      (∀ line ∈ lines₂, Ascii.lineFeed ∉ line) ∧
      List.Forall₂ (Report.SameLine .standard .standard) lines (lines₁ ++ lines₂) := by
  let jar : Entry :=
    ⟨some (ascii "a.jar"), .file, none, ascii "xy", [], .ok, none, some (1, none), none⟩
  let lib : Library := .ofTables [([1], .entries [jar]), ([2], .entries [])]
    [(ascii "bad.esa", [1]), (ascii "good.esa", [2])]
  let a : Arguments :=
    ⟨none, some .error, [ascii "bad.esa", ascii "note.txt", ascii "good.esa"]⟩
  let s : Scratch := .ofTree ⟨[], [[ascii "tmp"]], []⟩
  let s' : Scratch := ⟨s.tree, .reliable, [(ascii "/tmp/unpackedBundle-000000", [])]⟩
  let outcome (paths : List Bytes) (scratch : Scratch) : BatchOutcome :=
    run lib .standard (fun _ => none) [] { a with operands := paths }.write .info scratch
  have hparse : Arguments.parse [ascii "bad.esa", ascii "-q", ascii "note.txt", ascii "good.esa"] =
      .ok a := by decide +kernel
  have hcall : ∀ (paths : List Bytes) (scratch : Scratch), paths ≠ [] →
      Prints lib .standard (fun _ => none) [] a .info scratch paths (outcome paths scratch).lines
        (outcome paths scratch).exitCode :=
    fun paths scratch hne => .call (Arguments.parse_write (.inr (.inr rfl)) hne)
  have hall := hcall ([ascii "bad.esa", ascii "note.txt"] ++ [ascii "good.esa"]) s (by decide)
  have hfront := hcall [ascii "bad.esa", ascii "note.txt"] s' (by decide)
  have hbehind := hcall [ascii "good.esa"] s (by decide)
  have halike : s.Alike (Settings.extractionOptions .none) s' := fun _ => ⟨rfl, by decide +kernel⟩
  obtain ⟨-, hcomposed, hone⟩ := prints_operands lib .standard (fun _ => none) [] .info hparse rfl
  obtain ⟨hlines, -, -⟩ := hcomposed halike (.refl _ s) hall hfront hbehind
  have hline := (hone hbehind).2 JsonLibrary.standard_writesLines
  have hcode : (outcome a.operands s).exitCode = 1 := by decide +kernel
  have hcode₁ : (outcome [ascii "bad.esa", ascii "note.txt"] s').exitCode = 1 := by decide +kernel
  have hcode₂ : (outcome [ascii "good.esa"] s).exitCode = 0 := by decide +kernel
  refine ⟨lib, a, s, s', _, _, _, hparse, rfl, hcode ▸ hall, hcode₁ ▸ hfront, hcode₂ ▸ hbehind,
    ?_, ?_, ?_, hline, hlines⟩ <;> decide +kernel

end

end Batch

end JavaFloor
