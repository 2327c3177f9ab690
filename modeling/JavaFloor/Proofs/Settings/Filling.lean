import JavaFloor.Proofs.Except
import JavaFloor.Settings
import Mathlib.Algebra.Order.Ring.Int

/-!
# Filling settings

Settings are filled in place: a value is written as soon as its type has been checked, and all of
them are checked at the end. This module says what becomes of settings that are filled, and with
which members of an object they can be filled.

* `Settings.Holds` says what the values of members are read as, and `Settings.IsUsable` which values
  pass the check: `Settings.read_eq_ok_iff`, `Settings.fault?_eq_none_iff`.
* `Settings.fill_of_read_ok` and `Settings.fill_of_read_error`: filling is reading all values and
  writing those there are over the settings from before.
* `Settings.fill_limit_iff` says which integers are taken for the limit of a component.
-/

namespace JavaFloor

variable {members : List (Bytes × JsonValue)} {key : Bytes}

/-- There is a value under each name that a member has, and under no other. -/
theorem JsonValue.isSome_member?_iff :
    (member? members key).isSome ↔ key ∈ members.map (·.1) := by
  simp [member?]

namespace ExtractionMode

theorem isSome_ofName?_iff {name : Bytes} :
    (ofName? name).isSome ↔ name = ascii "tempfile" ∨ name = ascii "memory" := by
  unfold ofName?
  by_cases hfile : name = ascii "tempfile"
  · simp [hfile]
  · rw [if_neg hfile, or_iff_right hfile]
    by_cases hmemory : name = ascii "memory"
    · simp [hmemory]
    · simp [hmemory]

end ExtractionMode

namespace Settings

open JsonValue (member?)

variable {new old s : Settings} {fault : SettingsFault} {value : Option Bytes} {limit : Option Nat}
  {n : Int}

/-! ## Single values -/

theorem string?_eq_ok_iff :
    string? members key = .ok value ↔ member? members key = value.map .string := by
  unfold string?
  cases hmember : member? members key with
  | none => cases value <;> simp
  | some v => cases v <;> cases value <;> simp

/-- An integer as a signed word of 64 bits. -/
def signed (n : Int) : Int := n.bmod UInt64.size

theorem signed_of_lt (hlow : -2 ^ 63 ≤ n) (hhigh : n < 2 ^ 63) : signed n = n := by
  apply Int.bmod_eq_of_le <;> rw [UInt64.size] <;> omega

/-- From 2^63 on, the integers of 64 bits are negative as signed words. -/
theorem signed_neg (hlow : 2 ^ 63 ≤ n) (hhigh : n < 2 ^ 64) : signed n < 0 := by
  rw [signed, Int.bmod_def, UInt64.size]
  omega

theorem positive?_of_integer (h : member? members key = some (.integer n)) :
    positive? members key =
      if 0 < signed n then .ok (some (signed n).toNat) else .error (.notPositive key) := by
  rw [positive?, h]
  rfl

theorem positive?_eq_ok_iff : positive? members key = .ok limit ↔
    ∃ n : Option Int, member? members key = n.map .integer ∧ (∀ m ∈ n, 0 < signed m) ∧
      limit = n.map fun m => (signed m).toNat := by
  constructor
  · intro h
    cases hmember : member? members key with
    | none =>
      rw [positive?, hmember] at h
      exact ⟨Option.none, rfl, nofun, (Except.ok.inj h).symm⟩
    | some v =>
      cases v with
      | integer n =>
        rw [positive?_of_integer hmember] at h
        split at h
        next hpos =>
          refine ⟨some n, rfl, fun m hm => ?_, (Except.ok.inj h).symm⟩
          rwa [← Option.some.inj hm]
        next => cases h
      | null | bool | real | string | array | object => simp [positive?, hmember] at h
  · rintro ⟨_ | n, hmember, hpos, rfl⟩
    · rw [positive?, hmember]
      rfl
    · rw [positive?_of_integer hmember, if_pos (hpos n rfl)]
      rfl

/-! ## All values -/

/-- The members of an object are read as settings: a field holds the value under its key, and
nothing if there is none. The limit is a signed word. -/
structure Holds (members : List (Bytes × JsonValue)) (s : Settings) : Prop where
  logLevel : member? members (ascii "LogLevel") = s.logLevel.map .string
  directory : member? members (ascii "TempDir") = s.directory.map .string
  componentLimit : ∃ n : Option Int,
    member? members (ascii "MaxComponentBytes") = n.map .integer ∧ (∀ m ∈ n, 0 < signed m) ∧
      s.componentLimit = n.map fun m => (signed m).toNat
  extraction : member? members (ascii "ComponentExtraction") = s.extraction.map .string

/-- Settings that can be used. -/
structure IsUsable (s : Settings) : Prop where
  logLevel : ∀ name ∈ s.logLevel, (LogLevel.ofName? name).isSome
  directory : ∀ path ∈ s.directory, path ≠ []
  componentLimit : ∀ limit ∈ s.componentLimit, 1 ≤ limit
  extraction : ∀ name ∈ s.extraction, name = ascii "tempfile" ∨ name = ascii "memory"

theorem read_eq_ok_iff : read members = .ok s ↔ Holds members s := by
  constructor
  · intro h
    obtain ⟨logLevel, hlogLevel, h⟩ := bind_eq_ok h
    obtain ⟨directory, hdirectory, h⟩ := bind_eq_ok h
    obtain ⟨limit, hlimit, h⟩ := bind_eq_ok h
    obtain ⟨extraction, hextraction, h⟩ := bind_eq_ok h
    cases h
    exact ⟨string?_eq_ok_iff.1 hlogLevel, string?_eq_ok_iff.1 hdirectory,
      positive?_eq_ok_iff.1 hlimit, string?_eq_ok_iff.1 hextraction⟩
  · rintro ⟨hlogLevel, hdirectory, hlimit, hextraction⟩
    rw [read, string?_eq_ok_iff.2 hlogLevel, string?_eq_ok_iff.2 hdirectory,
      positive?_eq_ok_iff.2 hlimit, string?_eq_ok_iff.2 hextraction]
    rfl

theorem Holds.one_le_componentLimit (h : Holds members s) :
    ∀ limit ∈ s.componentLimit, 1 ≤ limit := by
  obtain ⟨n, -, hpos, hlimit⟩ := h.componentLimit
  intro limit hmem
  rw [hlimit, Option.mem_def, Option.map_eq_some_iff] at hmem
  obtain ⟨m, hm, rfl⟩ := hmem
  have := hpos m hm
  omega

/-- The check finds nothing wrong with settings that can be used. A limit that is too low does not
get as far. -/
theorem fault?_eq_none_iff (hlimit : ∀ limit ∈ s.componentLimit, 1 ≤ limit) :
    s.fault? = Option.none ↔ s.IsUsable := by
  have hfault : s.fault? = Option.none ↔ (∀ name ∈ s.logLevel, (LogLevel.ofName? name).isSome) ∧
      (∀ path ∈ s.directory, path ≠ []) ∧
      ∀ name ∈ s.extraction, name = ascii "tempfile" ∨ name = ascii "memory" := by
    simp [fault?, ← ExtractionMode.isSome_ofName?_iff, Option.isSome_iff_ne_none]
  rw [hfault]
  exact ⟨fun ⟨hlevel, hdirectory, hextraction⟩ => ⟨hlevel, hdirectory, hlimit, hextraction⟩,
    fun h => ⟨h.logLevel, h.directory, h.extraction⟩⟩

/-- Where nothing is set, nothing is wrong. -/
theorem isUsable_none : none.IsUsable := ⟨nofun, nofun, nofun, nofun⟩

theorem IsUsable.check_eq_ok (h : s.IsUsable) : s.check = .ok () := by
  rw [check, (fault?_eq_none_iff h.componentLimit).2 h]

/-- **Members make the settings that they hold**, if these can be used. -/
theorem ofMembers_eq_ok_iff : ofMembers members = .ok s ↔ Holds members s ∧ s.IsUsable := by
  constructor
  · intro h
    unfold ofMembers at h
    split at h
    · cases h
    next hread =>
      split at h
      · cases h
      next hfault =>
        cases h
        have hholds := read_eq_ok_iff.1 hread
        exact ⟨hholds, (fault?_eq_none_iff hholds.one_le_componentLimit).1 hfault⟩
  · rintro ⟨hholds, husable⟩
    have hfault := (fault?_eq_none_iff husable.componentLimit).2 husable
    rw [ofMembers, read_eq_ok_iff.2 hholds]
    simp only [hfault]

/-! ## In place -/

/-- The settings `new`, and those of `old` where `new` sets nothing. -/
def onto (new old : Settings) : Settings :=
  ⟨new.logLevel <|> old.logLevel, new.directory <|> old.directory,
    new.componentLimit <|> old.componentLimit, new.extraction <|> old.extraction⟩

@[simp]
theorem onto_none (new : Settings) : new.onto none = new := by simp [onto, none]

theorem forall_mem_orElse {α : Type} {P : α → Prop} {first second : Option α}
    (hfirst : ∀ a ∈ first, P a) (hsecond : ∀ a ∈ second, P a) :
    ∀ a ∈ (first <|> second), P a := by
  cases first with
  | none => exact hsecond
  | some => exact hfirst

theorem IsUsable.onto (hnew : new.IsUsable) (hold : old.IsUsable) : (new.onto old).IsUsable where
  logLevel := forall_mem_orElse hnew.logLevel hold.logLevel
  directory := forall_mem_orElse hnew.directory hold.directory
  componentLimit := forall_mem_orElse hnew.componentLimit hold.componentLimit
  extraction := forall_mem_orElse hnew.extraction hold.extraction

/-- If all values can be read, they are written over the settings from before and checked with
them. -/
theorem fill_of_read_ok (h : read members = .ok new) (old : Settings) :
    (fill members).run.run old = ((new.onto old).check, new.onto old) := by
  obtain ⟨logLevel, hlogLevel, h⟩ := bind_eq_ok h
  obtain ⟨directory, hdirectory, h⟩ := bind_eq_ok h
  obtain ⟨limit, hlimit, h⟩ := bind_eq_ok h
  obtain ⟨extraction, hextraction, h⟩ := bind_eq_ok h
  cases h
  rw [fill, hlogLevel, hdirectory, hlimit, hextraction]
  rfl

/-- If one cannot be read, filling stops at it, behind the fields that were written before. -/
theorem fill_of_read_error (h : read members = .error fault) (old : Settings) :
    ((fill members).run.run old).1 = .error fault := by
  rcases bind_eq_error h with hlogLevel | ⟨logLevel, hlogLevel, h⟩
  · rw [fill, hlogLevel]
    rfl
  rcases bind_eq_error h with hdirectory | ⟨directory, hdirectory, h⟩
  · rw [fill, hlogLevel, hdirectory]
    rfl
  rcases bind_eq_error h with hlimit | ⟨limit, hlimit, h⟩
  · rw [fill, hlogLevel, hdirectory, hlimit]
    rfl
  rcases bind_eq_error h with hextraction | ⟨extraction, hextraction, h⟩
  · rw [fill, hlogLevel, hdirectory, hlimit, hextraction]
    rfl
  · cases h

/-- Settings in which nothing was set are filled with what the members make. -/
theorem fill_none (members : List (Bytes × JsonValue)) :
    match ofMembers members with
    | .ok s => (fill members).run.run none = (.ok (), s)
    | .error fault => ((fill members).run.run none).1 = .error fault := by
  rw [ofMembers]
  cases hread : read members with
  | error fault => exact fill_of_read_error hread none
  | ok s =>
    have hfill := fill_of_read_ok hread none
    rw [onto_none, check] at hfill
    cases hfault : s.fault? with
    | none => simpa [hfault] using hfill
    | some fault => simp [hfault, hfill]

/-! ## The limit of a component -/

/-- The values under the keys other than `MaxComponentBytes`, where there are any, can be used. -/
structure OthersFit (members : List (Bytes × JsonValue)) : Prop where
  logLevel : ∀ v ∈ member? members (ascii "LogLevel"),
    ∃ name, v = .string name ∧ (LogLevel.ofName? name).isSome
  directory : ∀ v ∈ member? members (ascii "TempDir"), ∃ path, v = .string path ∧ path ≠ []
  extraction : ∀ v ∈ member? members (ascii "ComponentExtraction"),
    ∃ name, v = .string name ∧ (name = ascii "tempfile" ∨ name = ascii "memory")

/-- A string that fits is read. -/
theorem exists_string?_of_forall {P : Bytes → Prop}
    (h : ∀ v ∈ member? members key, ∃ text, v = .string text ∧ P text) :
    ∃ value, string? members key = .ok value ∧ ∀ text ∈ value, P text := by
  cases hmember : member? members key with
  | none => exact ⟨Option.none, string?_eq_ok_iff.2 hmember, nofun⟩
  | some v =>
    obtain ⟨text, rfl, htext⟩ := h v hmember
    refine ⟨some text, string?_eq_ok_iff.2 hmember, fun t ht => ?_⟩
    rwa [← Option.some.inj ht]

/-- If the other values fit, it depends on the limit alone whether the settings can be read. -/
theorem OthersFit.exists_read (h : OthersFit members) : ∃ s : Settings,
    (∀ limit, IsUsable { s with componentLimit := limit } ↔ ∀ n ∈ limit, 1 ≤ n) ∧
      read members = (positive? members (ascii "MaxComponentBytes")).map
        fun limit => { s with componentLimit := limit } := by
  obtain ⟨logLevel, hlogLevel, hlevel⟩ := exists_string?_of_forall h.logLevel
  obtain ⟨directory, hdirectory, hpath⟩ := exists_string?_of_forall h.directory
  obtain ⟨extraction, hextraction, hmode⟩ := exists_string?_of_forall h.extraction
  refine ⟨⟨logLevel, directory, Option.none, extraction⟩, fun limit =>
    ⟨fun hs => hs.componentLimit, fun hlimit => ⟨hlevel, hpath, hlimit, hmode⟩⟩, ?_⟩
  rw [read, hlogLevel, hdirectory, hextraction]
  cases positive? members (ascii "MaxComponentBytes") with
  | error | ok => rfl

/-- **A limit is taken if it is positive as a signed word.** -/
theorem fill_limit_iff (hlow : -2 ^ 63 ≤ n) (hhigh : n < 2 ^ 64)
    (hmember : member? members (ascii "MaxComponentBytes") = some (.integer n))
    (others : OthersFit members) (hold : old.IsUsable) :
    (((fill members).run.run old).1 = .ok () ↔ 0 < n ∧ n < 2 ^ 63) ∧
      (0 < n ∧ n < 2 ^ 63 →
        ((fill members).run.run old).2.componentLimit = some n.toNat) ∧
      (2 ^ 63 ≤ n → ((fill members).run.run old).1 =
        .error (.notPositive (ascii "MaxComponentBytes"))) := by
  obtain ⟨s, husable, hread⟩ := others.exists_read
  rw [positive?_of_integer hmember] at hread
  by_cases hpos : 0 < n ∧ n < 2 ^ 63
  · have hsigned : signed n = n := signed_of_lt hlow hpos.2
    rw [hsigned, if_pos hpos.1] at hread
    have hnew := (husable (some n.toNat)).2 fun m hm => by
      obtain rfl := Option.some.inj hm
      omega
    rw [fill_of_read_ok hread, (hnew.onto hold).check_eq_ok]
    exact ⟨iff_of_true rfl hpos, fun _ => rfl, fun h => absurd hpos.2 (Int.not_lt.2 h)⟩
  · have hsigned : ¬ 0 < signed n := by
      by_cases hsmall : n < 2 ^ 63
      · rw [signed_of_lt hlow hsmall]
        omega
      · exact Int.lt_asymm (signed_neg (Int.not_lt.1 hsmall) hhigh)
    rw [if_neg hsigned] at hread
    have hfill := fill_of_read_error hread old
    exact ⟨iff_of_false (by simp [hfill]) hpos, fun h => absurd h hpos, fun _ => hfill⟩

/-- The greatest signed word is taken, and the next integer is not. -/
theorem fill_limit_iff_at_word_end :
    ((fill [(ascii "MaxComponentBytes", .integer (2 ^ 63 - 1))]).run.run none).2.componentLimit =
        some (2 ^ 63 - 1) ∧
      ((fill [(ascii "MaxComponentBytes", .integer (2 ^ 63))]).run.run none).1 =
        .error (.notPositive (ascii "MaxComponentBytes")) := by
  have others (v : JsonValue) : OthersFit [(ascii "MaxComponentBytes", v)] :=
    ⟨nofun, nofun, nofun⟩
  obtain ⟨-, htaken, -⟩ := fill_limit_iff (by decide) (by decide) rfl
    (others (.integer (2 ^ 63 - 1))) isUsable_none
  obtain ⟨-, -, hrefused⟩ := fill_limit_iff (by decide) (by decide) rfl
    (others (.integer (2 ^ 63))) isUsable_none
  exact ⟨htaken (by decide), hrefused (by decide)⟩

end Settings

end JavaFloor
