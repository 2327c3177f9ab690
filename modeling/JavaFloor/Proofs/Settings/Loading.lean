import JavaFloor.Batch
import JavaFloor.Json.Writer
import JavaFloor.Proofs.Settings.Filling

/-!
# Loading settings

Settings are loaded from one file after another into the same object. A load resets them, fills them
from the file, and resets them again if the file turns out not to be usable, so that nothing is left
of earlier files or of one half of a file. Which texts are JSON is a matter of the library that
reads them.

* `Settings.load_eq_ok_iff` says which files can be used, and what they set.
* `Settings.reload_eq`: a load leaves what the file sets, or nothing.
* `SettingsCall.settings_of_run` follows settings through any sequence of loads.
-/

namespace JavaFloor

namespace Settings

variable {json : JsonLibrary} {files : Bytes → Option Bytes} {path : Bytes}
  {members : List (Bytes × JsonValue)} {s : Settings}

theorem object_eq_ok_iff : object json files path = .ok members ↔
    ∃ text, files path = some text ∧ json.parse text = .ok (.object members) := by
  rw [object]
  cases files path with
  | none => simp
  | some text =>
    cases htext : json.parse text with
    | error => simp [htext]
    | ok v => cases v <;> simp [htext]

/-- **A file can be used** if it holds an object whose members hold usable settings. -/
theorem load_eq_ok_iff : load json files path = .ok s ↔
    ∃ members, object json files path = .ok members ∧ Holds members s ∧ s.IsUsable := by
  rw [load]
  cases object json files path with
  | error e => simp
  | ok members => simp [mapError_eq_ok_iff, ofMembers_eq_ok_iff]

theorem reset_eq (s : Settings) : s.reset = none := rfl

/-- **A load leaves what the file sets, or nothing**, whatever was set before. -/
theorem reload_eq (json : JsonLibrary) (files : Bytes → Option Bytes) (path : Bytes)
    (s : Settings) :
    reload json files path s =
      match load json files path with
      | .ok new => (.ok (), new)
      | .error e => (.error e, none) := by
  simp only [reload, load, reset_eq]
  cases object json files path with
  | error e => rfl
  | ok members =>
    dsimp only
    have hfill := fill_none members
    generalize (fill members).run.run none = filled at hfill ⊢
    obtain ⟨outcome, left⟩ := filled
    cases hmembers : ofMembers members with
    | ok new =>
      rw [hmembers] at hfill
      obtain ⟨rfl, rfl⟩ := Prod.mk.inj hfill
      rfl
    | error fault =>
      rw [hmembers] at hfill
      obtain rfl : outcome = .error fault := hfill
      rfl

/-- A field is set for each of the keys that a member has. -/
structure Covers (s : Settings) (members : List (Bytes × JsonValue)) : Prop where
  logLevel : s.logLevel.isSome ↔ ascii "LogLevel" ∈ members.map (·.1)
  directory : s.directory.isSome ↔ ascii "TempDir" ∈ members.map (·.1)
  componentLimit : s.componentLimit.isSome ↔ ascii "MaxComponentBytes" ∈ members.map (·.1)
  extraction : s.extraction.isSome ↔ ascii "ComponentExtraction" ∈ members.map (·.1)

theorem Holds.covers (h : Holds members s) : s.Covers members := by
  obtain ⟨n, hmember, -, hlimit⟩ := h.componentLimit
  constructor
  · rw [← JsonValue.isSome_member?_iff, h.logLevel, Option.isSome_map]
  · rw [← JsonValue.isSome_member?_iff, h.directory, Option.isSome_map]
  · rw [← JsonValue.isSome_member?_iff, hmember, hlimit, Option.isSome_map, Option.isSome_map]
  · rw [← JsonValue.isSome_member?_iff, h.extraction, Option.isSome_map]

/-- Where a level is named, there is a level of that name. -/
theorem IsUsable.exists_level? (h : s.IsUsable) :
    ∀ name ∈ s.logLevel, ∃ level, LogLevel.ofName? name = some level ∧ s.level? = some level := by
  intro name hname
  obtain ⟨level, hlevel⟩ := Option.isSome_iff_exists.1 (h.logLevel name hname)
  have hset : s.logLevel = some name := hname
  exact ⟨level, hlevel, by rw [level?, hset, Option.bind_some, hlevel]⟩

end Settings

/-- A load: the files that there are at that time, and the path that is loaded. -/
structure SettingsCall where
  files : Bytes → Option Bytes
  path : Bytes

namespace SettingsCall

variable {json : JsonLibrary} {c c' : SettingsCall} {members : List (Bytes × JsonValue)}
  {s left : Settings}

/-- What a load answers. -/
def outcome (json : JsonLibrary) (c : SettingsCall) (s : Settings) : Except SettingsError Unit :=
  (s.reload json c.files c.path).1

/-- The settings that a load leaves. -/
def after (json : JsonLibrary) (c : SettingsCall) (s : Settings) : Settings :=
  (s.reload json c.files c.path).2

/-- The settings that a sequence of loads leaves. -/
def run (json : JsonLibrary) (s : Settings) (calls : List SettingsCall) : Settings :=
  calls.foldl (fun s c => c.after json s) s

/-- The file that is loaded holds an object with these members. -/
def Finds (json : JsonLibrary) (c : SettingsCall) (members : List (Bytes × JsonValue)) : Prop :=
  ∃ text, c.files c.path = some text ∧ json.parse text = .ok (.object members)

theorem run_concat (json : JsonLibrary) (s : Settings) (calls : List SettingsCall)
    (c : SettingsCall) : run json s (calls ++ [c]) = c.after json (run json s calls) := by
  simp [run]

/-- What a load does is a matter of its path and of the file there. -/
theorem reload_congr (json : JsonLibrary) (hpath : c'.path = c.path)
    (hfile : c'.files c'.path = c.files c.path) (s' s : Settings) :
    s'.reload json c'.files c'.path = s.reload json c.files c.path := by
  have hobject : Settings.object json c'.files c'.path = Settings.object json c.files c.path := by
    rw [Settings.object, Settings.object, hfile, hpath]
  rw [Settings.reload_eq, Settings.reload_eq, Settings.load, Settings.load, hobject, hpath]

theorem Finds.unique {found : List (Bytes × JsonValue)} (h : c.Finds json members)
    (hfound : c.Finds json found) : members = found := by
  obtain ⟨text, htext, hmembers⟩ := h
  obtain ⟨text', htext', hfound⟩ := hfound
  obtain rfl := Option.some.inj (htext.symm.trans htext')
  exact JsonValue.object.inj (Except.ok.inj (hmembers.symm.trans hfound))

/-- A load succeeds and leaves the settings that its file holds, if these can be used. -/
theorem outcome_eq_ok_iff : (c.outcome json s = .ok () ∧ c.after json s = left) ↔
    ∃ members, c.Finds json members ∧ Settings.Holds members left ∧ left.IsUsable := by
  have hload : (c.outcome json s = .ok () ∧ c.after json s = left) ↔
      Settings.load json c.files c.path = .ok left := by
    rw [outcome, after, Settings.reload_eq]
    cases Settings.load json c.files c.path <;> simp
  rw [hload, Settings.load_eq_ok_iff]
  simp only [Settings.object_eq_ok_iff, Finds]

theorem after_of_error {e : SettingsError} (h : c.outcome json s = .error e) :
    c.after json s = .none := by
  rw [outcome, Settings.reload_eq] at h
  rw [after, Settings.reload_eq]
  cases hload : Settings.load json c.files c.path with
  | error e => rfl
  | ok new => simp [hload] at h

/-- Whatever is loaded, it leaves usable values. -/
theorem isUsable_after (json : JsonLibrary) (c : SettingsCall) (s : Settings) :
    (c.after json s).IsUsable := by
  cases houtcome : c.outcome json s with
  | error e =>
    rw [after_of_error houtcome]
    exact Settings.isUsable_none
  | ok =>
    obtain ⟨-, -, -, husable⟩ := outcome_eq_ok_iff.1 ⟨houtcome, rfl⟩
    exact husable

/-- **Loading settings has no memory, and lets usable values in only.**

Follow settings, whatever they are, through any sequence of loads, up to a load `c`, with any
library that reads JSON. What `c` answers and leaves is the same after any other sequence, for any
load of the same file. It succeeds exactly if the library reads its file as an object whose members
hold usable settings, and then it leaves those settings: a field is set exactly if the object has
its key, the level named is a level, the directory is not empty, the limit is at least 1, and the
extraction is one of the two that there are. If it fails, nothing is set. A call of the program that
names the file gets the settings that `c` leaves if `c` succeeds and is refused if `c` fails; where
a level is named, it is the level of this call. -/
theorem settings_of_run (json : JsonLibrary) (s : Settings) (before : List SettingsCall)
    (c : SettingsCall) :
    let outcome := c.outcome json (run json s before)
    let after := run json s (before ++ [c])
    (∀ s' before' c', c'.path = c.path → c'.files c'.path = c.files c.path →
      c'.outcome json (run json s' before') = outcome ∧
        run json s' (before' ++ [c']) = after) ∧
    (∀ left, outcome = .ok () ∧ after = left ↔
      ∃ members, c.Finds json members ∧ Settings.Holds members left ∧ left.IsUsable) ∧
    (∀ members, outcome = .ok () → c.Finds json members →
      after.Covers members ∧ after.IsUsable) ∧
    (∀ e, outcome = .error e → after = .none) ∧
    Batch.settings json c.files (some c.path) = outcome.map (fun _ => after) ∧
    ∀ name ∈ after.logLevel, ∃ level, LogLevel.ofName? name = some level ∧
      after.level? = some level := by
  have husable := isUsable_after json c (run json s before)
  simp only [run_concat]
  refine ⟨fun s' before' c' hpath hfile => ?_, fun left => outcome_eq_ok_iff,
    fun members hok hfinds => ?_, fun e herror => after_of_error herror, ?_, husable.exists_level?⟩
  · have hreload := reload_congr json hpath hfile (run json s' before') (run json s before)
    exact ⟨congrArg Prod.fst hreload, congrArg Prod.snd hreload⟩
  · obtain ⟨found, hfound, hholds, -⟩ := outcome_eq_ok_iff.1 ⟨hok, rfl⟩
    obtain rfl := hfinds.unique hfound
    exact ⟨hholds.covers, husable⟩
  · rw [Batch.settings, outcome, after, Settings.reload_eq]
    cases Settings.load json c.files c.path with
    | error | ok => rfl

/-- A file that fails in its last key clears what was set, and the file from before can be loaded
again. -/
theorem settings_of_run_refused : ∃ good bad : SettingsCall,
    good.outcome .standard .none = .ok () ∧
      (run .standard .none [good]).logLevel = some (ascii "INFO") ∧
      (run .standard .none [good]).level? = some .info ∧
      bad.outcome .standard (run .standard .none [good]) =
        .error (.badValue .unknownExtraction (ascii "b.json")) ∧
      run .standard .none [good, bad] = .none ∧
      run .standard .none [good, bad, good] = run .standard .none [good] := by
  let good : SettingsCall :=
    ⟨fun _ => some (ascii "\x7b\"LogLevel\": \"INFO\", \"MaxComponentBytes\": 7\x7d"),
      ascii "a.json"⟩
  let bad : SettingsCall :=
    ⟨fun _ => some (ascii "\x7b\"TempDir\": \"/x\", \"ComponentExtraction\": \"mmap\"\x7d"),
      ascii "b.json"⟩
  have hgood : good.outcome .standard .none = .ok () := by decide +kernel
  have hlevel : (run .standard .none [good]).logLevel = some (ascii "INFO") := by decide +kernel
  have hbad : bad.outcome .standard (run .standard .none [good]) =
      .error (.badValue .unknownExtraction (ascii "b.json")) := by decide +kernel
  refine ⟨good, bad, hgood, hlevel, ?_, hbad, ?_, ?_⟩
  · obtain ⟨-, -, -, -, -, hset⟩ := settings_of_run .standard .none [] good
    obtain ⟨level, hname, hset⟩ := hset _ hlevel
    obtain rfl : level = .info := Option.some.inj (hname.symm.trans (by decide +kernel))
    exact hset
  · obtain ⟨-, -, -, hfails, -⟩ := settings_of_run .standard .none [good] bad
    exact hfails _ hbad
  · obtain ⟨hsame, -⟩ := settings_of_run .standard .none [] good
    exact (hsame .none [good, bad] good rfl rfl).2

end SettingsCall

end JavaFloor
