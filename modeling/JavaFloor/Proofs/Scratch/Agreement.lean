import JavaFloor.Proofs.Scratch.Copying

/-!
# Copies and readings agree

Within a limit, a stream can be copied to a temporary file or read into memory. The two loops differ
in what they do first with a piece, but they end alike, wherever the pieces end and whatever comes
behind them, and however many bytes the device of the file takes at a time.

* `TempFile.Agrees` says what both loops come to, given the bytes that are delivered and what comes
  behind them.
* `TempFile.copyFrom_written` is what a copy leaves in the file, and `TempFile.agrees_of_goesAs`
  adds how copy and reading end.
* `TempFile.copy_agrees_with_reading` puts this together.
-/

namespace JavaFloor

namespace TempFile

variable {t : TempFile} {path old : Bytes} {s : Scratch} {limit : UInt64} {source : Stream}

/-- A copy to the file at `path`, which held `old`, agrees with a reading: of the bytes that come,
and of the ending behind them, both see the same, and at most `limit` bytes may come. -/
structure Agrees (path : Bytes) (limit : UInt64) (old bytes : Bytes) (ending : Ending)
    (copied : Copy × Scratch) (read : Except StreamError Bytes) : Prop where
  copy_iff : copied.1.error = Option.none ↔ ending = .finished ∧ bytes.length ≤ limit.toNat
  read_iff : (∃ all, read = .ok all) ↔ ending = .finished ∧ bytes.length ≤ limit.toNat
  whole : copied.1.error = Option.none →
    read = .ok bytes ∧ copied.1.written = bytes ∧ copied.1.copied.toNat = bytes.length
  copy_tooLong_iff : copied.1.error = some (.tooLong limit) ↔ limit.toNat < bytes.length
  read_tooLong_iff : read = .error (.tooLong limit) ↔ limit.toNat < bytes.length
  broken : bytes.length ≤ limit.toNat → ∀ reason, ending = .broken reason →
    copied.1.error = some (.readFailed path) ∧ read = .error (.broken reason)
  written : copied.1.written <+: bytes ∧ copied.1.written.length ≤ limit.toNat
  contents : copied.2.contents? path = some (old ++ copied.1.written)

/-- What a copy leaves in a file. -/
theorem copyFrom_written (hpath : t.path = some path) (hold : s.contents? path = some old)
    (hcount : source.Countable limit) :
    let copied := t.copyFrom limit source s
    (copied.1.written <+: source.delivery.bytes ∧ copied.1.written.length ≤ limit.toNat) ∧
      copied.2.contents? path = some (old ++ copied.1.written) := by
  obtain ⟨taken, hwritten, htaken, -, hmost⟩ :=
    t.copyOn_written s.device limit (t.size s) 0 [] source
  rw [List.reverse_nil, List.nil_append] at hwritten
  have hlength := hmost hcount.start
  rw [UInt64.toNat_zero, Nat.zero_add] at hlength
  simp only [copyFrom, hwritten]
  refine ⟨⟨htaken, hlength⟩, ?_⟩
  rw [append, hpath, Scratch.contents?_append, hold]
  rfl

/-- A copy that succeeds has counted what it has written. -/
theorem copied_of_ok (hcount : source.delivery.bytes.length ≤ limit.toNat)
    (h : (t.copyFrom limit source s).1.error = Option.none) :
    (t.copyFrom limit source s).1.copied.toNat = source.delivery.bytes.length := by
  rw [copyFrom] at h ⊢
  simp only at h ⊢
  rw [(copyOn_of_ok h).2, UInt64.zero_add]
  exact UInt64.toNat_ofNat_of_lt' (Nat.lt_of_le_of_lt hcount limit.toNat_lt)

/-- A copy that goes as the reading agrees with it. -/
theorem agrees_of_goesAs (hpath : t.path = some path) (hold : s.contents? path = some old)
    (hcount : source.Countable limit)
    (hgoes : (t.copyFrom limit source s).1.GoesAs t (source.readAll limit)) :
    Agrees path limit old source.delivery.bytes source.delivery.ending (t.copyFrom limit source s)
      (source.readAll limit) := by
  obtain ⟨hwritten, hcontents⟩ := copyFrom_written hpath hold hcount
  have hcopied := @copied_of_ok t s limit source
  rw [Stream.readAll_eq hcount, Delivery.outcome] at hgoes ⊢
  generalize t.copyFrom limit source s = copied at *
  by_cases hlimit : limit.toNat < source.delivery.bytes.length
  · rw [if_pos hlimit] at hgoes ⊢
    have herror : copied.1.error = some (.tooLong limit) := hgoes
    have hnot := Nat.not_le.2 hlimit
    exact
      { copy_iff := iff_of_false (by simp [herror]) fun h => hnot h.2
        read_iff := iff_of_false (by simp) fun h => hnot h.2
        whole := fun hnone => by simp [herror] at hnone
        copy_tooLong_iff := iff_of_true herror hlimit
        read_tooLong_iff := iff_of_true rfl hlimit
        broken := fun h => absurd h hnot
        written := hwritten
        contents := hcontents }
  · have hfits := Nat.not_lt.1 hlimit
    rw [if_neg hlimit] at hgoes ⊢
    cases hending : source.delivery.ending with
    | finished =>
      rw [hending] at hgoes
      obtain ⟨herror, hall⟩ := hgoes
      exact
        { copy_iff := iff_of_true herror ⟨rfl, hfits⟩
          read_iff := iff_of_true ⟨_, rfl⟩ ⟨rfl, hfits⟩
          whole := fun _ => ⟨rfl, hall, hcopied hfits herror⟩
          copy_tooLong_iff := iff_of_false (by simp [herror]) hlimit
          read_tooLong_iff := iff_of_false (by simp [Ending.outcome]) hlimit
          broken := fun _ _ h => by cases h
          written := hwritten
          contents := hcontents }
    | broken reason =>
      rw [hending] at hgoes
      have herror : copied.1.error = some (.readFailed path) := by
        rw [hgoes, copyError, hpath]
        rfl
      exact
        { copy_iff := iff_of_false (by simp [herror]) (by simp)
          read_iff := iff_of_false (by simp [Ending.outcome]) (by simp)
          whole := fun hnone => by simp [herror] at hnone
          copy_tooLong_iff := iff_of_false (by simp [herror]) hlimit
          read_tooLong_iff := iff_of_false (by simp [Ending.outcome]) hlimit
          broken := fun _ _ h => ⟨herror, by cases h; rfl⟩
          written := hwritten
          contents := hcontents }

/-- **Copies and readings of a stream agree.**

This is so for all that the source of the stream does in the readings, and for every limit, as long
as words can count the bytes. It needs a file that takes what is written to it, at once or in parts;
such is any file on a device that works. If every reading gives a byte as long as there is one and
none fails before, then what both loops see are the bytes of the stream and what stands behind
them. -/
theorem copy_agrees_with_reading (ht : t.writable = true) (hpath : t.path = some path)
    (hold : s.contents? path = some old) (hcount : source.Countable limit) :
    (s.device.Works → ¬ (t.copyFrom limit source s).1.IsStuck t) ∧
    (¬ (t.copyFrom limit source s).1.IsStuck t →
      Agrees path limit old source.delivery.bytes source.delivery.ending
        (t.copyFrom limit source s) (source.readAll limit)) ∧
    (source.Flows → source.delivery = ⟨source.pending, source.ending⟩) := by
  have hgoes : ((t.copyFrom limit source s).1.IsStuck t ∧ ¬ s.device.Works) ∨
      (t.copyFrom limit source s).1.GoesAs t (source.readAll limit) :=
    copyOn_goesAs ht (t.size s) 0 [] source
  refine ⟨fun hworks => ?_, fun hnot => ?_, Stream.delivery_of_flows⟩
  · exact (hgoes.resolve_left fun h => h.2 hworks).not_isStuck
  · exact agrees_of_goesAs hpath hold hcount (hgoes.resolve_left fun h => hnot h.1)

/-- A stream that fails right behind the limit and one that goes beyond it, read two bytes and three
bytes at a time and written byte by byte. -/
theorem copy_agrees_with_reading_at_limit :
    let t : TempFile := ⟨some (ascii "/tmp/a"), true⟩
    let bytewise : Device := ⟨fun _ _ => .ok 0, fun _ => true⟩
    let s : Scratch := ⟨⟨[], [], []⟩, bytewise, [(ascii "/tmp/a", ascii "x")]⟩
    let fits : Stream := ⟨ascii "abcd", [.gives 2, .gives 3], .broken Option.none⟩
    let exceeds : Stream := ⟨ascii "abcde", [.gives 2, .gives 3], .finished⟩
    (t.copyFrom 4 fits s).1.error = some (.readFailed (ascii "/tmp/a")) ∧
      fits.readAll 4 = .error (.broken Option.none) ∧
      (t.copyFrom 4 exceeds s).1.error = some (.tooLong 4) ∧
      exceeds.readAll 4 = .error (.tooLong 4) := by
  intro t bytewise s fits exceeds
  have hworks : s.device.Works := ⟨fun _ _ => ⟨0, rfl⟩, fun _ => rfl⟩
  have hboth : ∀ source : Stream, source.pending.length < UInt64.size → source.Flows →
      Agrees (ascii "/tmp/a") 4 (ascii "x") source.pending source.ending (t.copyFrom 4 source s)
        (source.readAll 4) := by
    intro source hlength hflows
    obtain ⟨hnot, hagrees, hall⟩ := @copy_agrees_with_reading t (ascii "/tmp/a") (ascii "x") s 4
      source rfl rfl rfl (Stream.countable_of_length hlength)
    have h := hagrees (hnot hworks)
    rwa [hall hflows] at h
  have hfits := hboth fits (by decide) (by decide)
  have hexceeds := hboth exceeds (by decide) (by decide)
  exact ⟨(hfits.broken (by decide) _ rfl).1, (hfits.broken (by decide) _ rfl).2,
    hexceeds.copy_tooLong_iff.2 (by decide), hexceeds.read_tooLong_iff.2 (by decide)⟩

end TempFile

end JavaFloor
