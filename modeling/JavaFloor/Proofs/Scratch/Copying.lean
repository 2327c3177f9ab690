import JavaFloor.Proofs.Stream
import JavaFloor.Scratch.Basic

/-!
# Copies of streams

A stream is copied to a temporary file one piece at a time, as it is read into memory. A copy to a
file that is open and takes what it is given therefore takes in the bytes that a reading gives, or
fails for the same reason.

* `Device.writeOn_cases`: of some data a device takes all, or it fails behind the first bytes.
* `TempFile.copyOn_written` says what a copy writes, whatever the device does.
* `TempFile.Copy.GoesAs` compares a copy with a reading: `TempFile.copyOn_goesAs`.
* `TempFile.copyOn_atPath`: a copy to another path is the same but for the path in its error.
-/

namespace JavaFloor

/-! ## Single writes -/

namespace Device

variable {d : Device} {size : Nat} {front data taken : Bytes} {reason : Bytes}

/-- What is written are the first bytes of the data, and all of them if no write fails. -/
theorem writeOn_cases (d : Device) (size : Nat) (front data : Bytes) :
    d.writeOn size front data = (data.reverse ++ front, none) ∨
    ∃ taken reason, taken <+: data ∧
      d.writeOn size front data = (taken.reverse ++ front, some reason) := by
  induction size, front, data using writeOn.induct d with
  | case1 size front =>
    rw [writeOn]
    exact .inl rfl
  | case2 size front c data reason h =>
    rw [writeOn, h]
    exact .inr ⟨[], reason, List.nil_prefix, rfl⟩
  | case3 size front c data more h part ih =>
    have hsplit : part ++ data.drop more = c :: data := by
      rw [List.cons_append, List.take_append_drop]
    rw [writeOn, h]
    refine ih.imp (fun hall => ?_) fun ⟨taken, reason, htaken, hfault⟩ => ?_
    · refine hall.trans ?_
      rw [← hsplit, List.reverse_append, List.append_assoc]
    · refine ⟨part ++ taken, reason, ?_, hfault.trans ?_⟩
      · rw [← hsplit]
        exact (List.prefix_append_right_inj part).2 htaken
      · rw [List.reverse_append, List.append_assoc]

/-- A device that works takes all of the data, however much of it at a time. -/
theorem Works.writeOn_eq (h : d.Works) (size : Nat) (front data : Bytes) :
    d.writeOn size front data = (data.reverse ++ front, none) := by
  induction size, front, data using writeOn.induct d with
  | case1 size front =>
    rw [writeOn]
    rfl
  | case2 size front c data reason hfault =>
    obtain ⟨more, hmore⟩ := h.write size (c :: data)
    rw [hmore] at hfault
    cases hfault
  | case3 size front c data more hmore part ih =>
    have hsplit : part ++ data.drop more = c :: data := by
      rw [List.cons_append, List.take_append_drop]
    rw [writeOn, hmore]
    refine ih.trans ?_
    rw [← hsplit, List.reverse_append, List.append_assoc]

end Device

/-- The same error, told of the file at another path. -/
def TempFileError.atPath (path : Bytes) : TempFileError → TempFileError
  | .readFailed _ => .readFailed path
  | .writeFailed _ reason => .writeFailed path reason
  | .closeFailed _ => .closeFailed path
  | e => e

namespace TempFile

variable {t : TempFile} {device : Device} {limit count : UInt64} {size : Nat} {front bytes : Bytes}
  {source rest : Stream} {reason : Option Bytes}

/-- On a device that works, a file that is open takes all that is written to it. -/
theorem write_of_works {s : Scratch} (hworks : s.device.Works) (ht : t.writable = true)
    (data : Bytes) : t.write data s = (.ok (), t.append data s) := by
  rw [write, if_pos ht, hworks.writeOn_eq]
  simp

/-- An object is closed afterwards, whatever the device does. -/
theorem close_snd (t : TempFile) (s : Scratch) : (t.close s).2 = { t with writable := false } := by
  rw [close]
  split
  · rfl
  next h =>
    have hclosed : t.writable = false := by simpa using h
    rw [← hclosed]

/-! ## Single pieces -/

theorem copyOn_of_failed (h : source.read Stream.blockSize = .failed reason rest) :
    t.copyOn device limit size count front source =
      ⟨front.reverse, count, some (.readFailed (t.path.getD []))⟩ := by
  rw [copyOn]
  split <;> simp_all

theorem copyOn_of_ended (h : source.read Stream.blockSize = .ended) :
    t.copyOn device limit size count front source = ⟨front.reverse, count, Option.none⟩ := by
  rw [copyOn]
  split <;> simp_all

/-- Each piece of a stream is counted, then held against the limit, then written. -/
theorem copyOn_of_piece (h : source.read Stream.blockSize = .piece bytes rest) :
    t.copyOn device limit size count front source =
      if limit < count + UInt64.ofNat bytes.length then
        ⟨front.reverse, count + UInt64.ofNat bytes.length, some (.tooLong limit)⟩
      else if t.writable then
        match device.writeOn size front bytes with
        | (front, some reason) =>
          ⟨front.reverse, count + UInt64.ofNat bytes.length,
            some (.writeFailed (t.path.getD []) reason)⟩
        | (front, Option.none) =>
          t.copyOn device limit (size + bytes.length) (count + UInt64.ofNat bytes.length) front rest
      else ⟨front.reverse, count + UInt64.ofNat bytes.length, some .notOpen⟩ := by
  rw [copyOn]
  split
  next h' => cases h.symm.trans h'
  next h' => cases h.symm.trans h'
  next h' =>
    cases h.symm.trans h'
    rfl

/-! ## What is written -/

/-- A copy writes the first bytes that are delivered, never more than the limit, and none at all if
the file is not open. -/
theorem copyOn_written (t : TempFile) (device : Device) (limit : UInt64) (size : Nat)
    (count : UInt64) (front : Bytes) (source : Stream) :
    ∃ taken, (t.copyOn device limit size count front source).written = front.reverse ++ taken ∧
      taken <+: source.delivery.bytes ∧ (t.writable = false → taken = []) ∧
      (source.CountableOn limit count → count.toNat + taken.length ≤ limit.toNat) := by
  induction size, count, front, source using copyOn.induct t device limit with
  | case1 size count front source reason rest hread =>
    rw [copyOn_of_failed hread]
    exact ⟨[], by simp, List.nil_prefix, fun _ => rfl, And.left⟩
  | case2 size count front source hread =>
    rw [copyOn_of_ended hread]
    exact ⟨[], by simp, List.nil_prefix, fun _ => rfl, And.left⟩
  | case3 size count front source bytes rest hread more hlimit =>
    rw [copyOn_of_piece hread, if_pos hlimit]
    exact ⟨[], by simp, List.nil_prefix, fun _ => rfl, And.left⟩
  | case4 size count front source bytes rest hread more hlimit hopen written reason hwrite =>
    rw [copyOn_of_piece hread, if_neg hlimit, if_pos hopen, hwrite, Stream.delivery_of_piece hread]
    obtain hall | ⟨taken, reason', htaken, hfault⟩ := device.writeOn_cases size front bytes
    · cases hwrite.symm.trans hall
    · cases hwrite.symm.trans hfault
      refine ⟨taken, by simp, htaken.trans (List.prefix_append _ _), by simp [hopen], fun h => ?_⟩
      have hmost := (h.tail hread hlimit).1
      have hlength := htaken.length_le
      rw [h.toNat_add hread] at hmost
      omega
  | case5 size count front source bytes rest hread more hlimit hopen written hwrite ih =>
    obtain ⟨taken, hwritten, htaken, -, hmost⟩ := ih
    rw [copyOn_of_piece hread, if_neg hlimit, if_pos hopen, hwrite, Stream.delivery_of_piece hread]
    obtain hall | ⟨_, _, -, hfault⟩ := device.writeOn_cases size front bytes
    · cases hwrite.symm.trans hall
      refine ⟨bytes ++ taken, hwritten.trans (by simp), ?_, by simp [hopen], fun h => ?_⟩
      · exact (List.prefix_append_right_inj bytes).2 htaken
      · have := hmost (h.tail hread hlimit)
        rw [h.toNat_add hread] at this
        rwa [List.length_append, ← Nat.add_assoc]
    · cases hwrite.symm.trans hfault
  | case6 size count front source bytes rest hread more hlimit hopen =>
    rw [copyOn_of_piece hread, if_neg hlimit, if_neg hopen]
    exact ⟨[], by simp, List.nil_prefix, fun _ => rfl, And.left⟩

/-- A copy that succeeds has written and counted all that is delivered, and nothing is broken. -/
theorem copyOn_of_ok
    (h : (t.copyOn device limit size count front source).error = Option.none) :
    source.delivery.ending = .finished ∧
      t.copyOn device limit size count front source =
        ⟨front.reverse ++ source.delivery.bytes,
          count + UInt64.ofNat source.delivery.bytes.length, Option.none⟩ := by
  induction size, count, front, source using copyOn.induct t device limit with
  | case1 size count front source reason rest hread =>
    rw [copyOn_of_failed hread] at h
    cases h
  | case2 size count front source hread =>
    rw [copyOn_of_ended hread, Stream.delivery_of_ended hread]
    exact ⟨rfl, by simp⟩
  | case3 size count front source bytes rest hread more hlimit =>
    rw [copyOn_of_piece hread, if_pos hlimit] at h
    cases h
  | case4 size count front source bytes rest hread more hlimit hopen written reason hwrite =>
    rw [copyOn_of_piece hread, if_neg hlimit, if_pos hopen, hwrite] at h
    cases h
  | case5 size count front source bytes rest hread more hlimit hopen written hwrite ih =>
    rw [copyOn_of_piece hread, if_neg hlimit, if_pos hopen, hwrite] at h ⊢
    obtain ⟨hending, hcopy⟩ := ih h
    obtain hall | ⟨_, _, -, hfault⟩ := device.writeOn_cases size front bytes
    · cases hwrite.symm.trans hall
      rw [Stream.delivery_of_piece hread]
      refine ⟨hending, hcopy.trans ?_⟩
      rw [List.reverse_append, List.reverse_reverse, List.append_assoc, List.length_append,
        UInt64.ofNat_add, UInt64.add_assoc]
    · cases hwrite.symm.trans hfault
  | case6 size count front source bytes rest hread more hlimit hopen =>
    rw [copyOn_of_piece hread, if_neg hlimit, if_neg hopen] at h
    cases h

/-! ## Copying and reading -/

/-- How the failure of a stream is told when it is copied to a file. -/
def copyError (t : TempFile) : StreamError → TempFileError
  | .broken _ => .readFailed (t.path.getD [])
  | .tooLong limit => .tooLong limit

/-- The copy to the file of `t` took in what a reading gave, or failed as the reading did. -/
def Copy.GoesAs (t : TempFile) (copy : Copy) : Except StreamError Bytes → Prop
  | .ok bytes => copy.error = Option.none ∧ copy.written = bytes
  | .error e => copy.error = some (t.copyError e)

/-- The file of `t` did not take all that was to be copied to it. -/
def Copy.IsStuck (t : TempFile) (copy : Copy) : Prop :=
  ∃ reason, copy.error = some (.writeFailed (t.path.getD []) reason)

theorem Copy.GoesAs.not_isStuck {copy : Copy} {read : Except StreamError Bytes}
    (h : copy.GoesAs t read) : ¬ copy.IsStuck t := by
  rintro ⟨reason, hstuck⟩
  cases read with
  | ok bytes => cases h.1.symm.trans hstuck
  | error e =>
    have herror : copy.error = some (t.copyError e) := h
    cases e with
    | broken | tooLong => cases herror.symm.trans hstuck

/-- **A copy to a file that is open goes as a reading does**, unless a write fails. -/
theorem copyOn_goesAs (ht : t.writable = true) (size : Nat) (count : UInt64) (front : Bytes)
    (source : Stream) :
    ((t.copyOn device limit size count front source).IsStuck t ∧ ¬ device.Works) ∨
      (t.copyOn device limit size count front source).GoesAs t
        (source.readOn limit count front) := by
  induction size, count, front, source using copyOn.induct t device limit with
  | case1 size count front source reason rest hread =>
    rw [copyOn_of_failed hread, Stream.readOn_of_failed hread]
    exact .inr rfl
  | case2 size count front source hread =>
    rw [copyOn_of_ended hread, Stream.readOn_of_ended hread]
    exact .inr ⟨rfl, rfl⟩
  | case3 size count front source bytes rest hread more hlimit =>
    rw [copyOn_of_piece hread, Stream.readOn_of_piece hread, if_pos hlimit, if_pos hlimit]
    exact .inr rfl
  | case4 size count front source bytes rest hread more hlimit hopen written reason hwrite =>
    rw [copyOn_of_piece hread, if_neg hlimit, if_pos hopen, hwrite]
    refine .inl ⟨⟨reason, rfl⟩, fun hworks => ?_⟩
    cases hwrite.symm.trans (hworks.writeOn_eq size front bytes)
  | case5 size count front source bytes rest hread more hlimit hopen written hwrite ih =>
    rw [copyOn_of_piece hread, Stream.readOn_of_piece hread, if_neg hlimit, if_neg hlimit,
      if_pos hopen, hwrite]
    obtain hall | ⟨_, _, -, hfault⟩ := device.writeOn_cases size front bytes
    · cases hwrite.symm.trans hall
      exact ih
    · cases hwrite.symm.trans hfault
  | case6 size count front source bytes rest hread more hlimit hopen => exact absurd ht hopen

/-! ## Other paths -/

/-- The same copy to the file at another path. -/
def Copy.atPath (path : Bytes) (copy : Copy) : Copy :=
  { copy with error := copy.error.map (.atPath path) }

theorem copyOn_atPath (device : Device) (limit : UInt64) (path path' : Bytes) (size : Nat)
    (count : UInt64) (front : Bytes) (source : Stream) :
    copyOn ⟨some path', true⟩ device limit size count front source =
      (copyOn ⟨some path, true⟩ device limit size count front source).atPath path' := by
  induction size, count, front, source using copyOn.induct ⟨some path, true⟩ device limit with
  | case1 size count front source reason rest hread =>
    rw [copyOn_of_failed hread, copyOn_of_failed hread]
    rfl
  | case2 size count front source hread =>
    rw [copyOn_of_ended hread, copyOn_of_ended hread]
    rfl
  | case3 size count front source bytes rest hread more hlimit =>
    rw [copyOn_of_piece hread, copyOn_of_piece hread, if_pos hlimit, if_pos hlimit]
    rfl
  | case4 size count front source bytes rest hread more hlimit hopen written reason hwrite =>
    rw [copyOn_of_piece hread, copyOn_of_piece hread, if_neg hlimit, if_neg hlimit, if_pos rfl,
      if_pos rfl, hwrite]
    rfl
  | case5 size count front source bytes rest hread more hlimit hopen written hwrite ih =>
    rw [copyOn_of_piece hread, copyOn_of_piece hread, if_neg hlimit, if_neg hlimit, if_pos rfl,
      if_pos rfl, hwrite]
    exact ih
  | case6 size count front source bytes rest hread more hlimit hopen => exact absurd rfl hopen

end TempFile

end JavaFloor
