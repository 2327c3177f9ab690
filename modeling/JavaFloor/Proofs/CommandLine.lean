import JavaFloor.CommandLine

/-!
# Writing command lines

The options that one command line asks for can be asked for with any other operands: behind `--`,
operands are taken as they are.

* `Arguments.write` is a command line that asks for the given things, `parse_write` says that it
  does.
* `Arguments.isWritable_of_parse`: what a command line asks for can be written.
-/

namespace JavaFloor

namespace Arguments

variable {a a' : Arguments} {arguments : List Bytes}

/-- The levels of logging that options stand for. -/
def IsWritable (a : Arguments) : Prop :=
  a.level = Option.none ∨ a.level = some .debug ∨ a.level = some .error

/-! ## What can be asked for -/

theorem isWritable_of_readShort {letters : Bytes} {wants : Bool} (ha : a.IsWritable)
    (h : readShort a letters = .ok (a', wants)) : a'.IsWritable := by
  induction letters generalizing a with
  | nil =>
    obtain ⟨rfl, -⟩ := Prod.mk.inj (Except.ok.inj h)
    exact ha
  | cons c letters ih =>
    rw [readShort] at h
    split at h
    · exact ih (.inr (.inl rfl)) h
    · split at h
      · exact ih (.inr (.inr rfl)) h
      · split at h
        · cases h
        · split at h
          · split at h <;> cases h <;> exact ha
          · cases h

theorem isWritable_of_readOne {argument : Bytes} {wants : Bool} (ha : a.IsWritable)
    (h : readOne a argument = .ok (a', wants)) : a'.IsWritable := by
  unfold readOne at h
  split at h
  · split at h
    · split at h
      · unfold readLong at h
        split at h <;> cases h
        · exact ha
        · exact ha
        · exact .inr (.inl rfl)
        · exact .inr (.inr rfl)
      · exact isWritable_of_readShort ha h
    · cases h
      exact ha
  · cases h
    exact ha

theorem isWritable_of_readOn (ha : a.IsWritable) (h : readOn a arguments = .ok a') :
    a'.IsWritable := by
  induction a, arguments using readOn.induct with
  | case1 a =>
    obtain rfl := Except.ok.inj h
    exact ha
  | case2 a rest =>
    rw [readOn, if_pos rfl] at h
    obtain rfl := Except.ok.inj h
    exact ha
  | case3 a argument rest hargument refusal hone =>
    simp [readOn, hargument, hone] at h
  | case4 a argument rest hargument b hone ih =>
    simp only [readOn, hargument, hone, if_false] at h
    exact ih (isWritable_of_readOne ha hone) h
  | case5 a argument hargument b hone =>
    simp [readOn, hargument, hone] at h
  | case6 a argument hargument b hone value rest ih =>
    simp only [readOn, hargument, hone, if_false] at h
    have hb := isWritable_of_readOne ha hone
    exact ih hb h

/-- **What a command line asks for can be written.** -/
theorem isWritable_of_parse (h : parse arguments = .ok a) : a.IsWritable := by
  unfold parse at h
  split at h
  · cases h
  next a' hread =>
    split at h
    · cases h
    · obtain rfl := Except.ok.inj h
      exact isWritable_of_readOn (.inl rfl) hread

/-! ## A command line -/

/-- A command line that asks for the given things. -/
def write (a : Arguments) : List Bytes :=
  (a.config.elim [] fun path => [ascii "-c", path]) ++
    (match a.level with
      | some .debug => [ascii "-v"]
      | some .error => [ascii "-q"]
      | _ => []) ++
    ascii "--" :: a.operands

/-- **A written command line asks for what it was written for.** -/
theorem parse_write (ha : a.IsWritable) (hoperands : a.operands ≠ []) :
    parse a.write = .ok a := by
  have hread : readOn none a.write = .ok a := by
    obtain ⟨config, level, operands⟩ := a
    cases config <;> rcases ha with rfl | rfl | rfl <;> rfl
  rw [parse, hread]
  exact if_neg hoperands

end Arguments

end JavaFloor
