import JavaFloor.Archive.Basic
import Mathlib.Data.List.Basic

/-!
# Streams that come in pieces

A stream is read in a loop, one piece at a time, and the limit is held against what has arrived so
far. What such a loop finds in the end depends on what the readings deliver together, but not on
where one piece ends and the next one starts.

* `Stream.LeadsTo` is what readings can make of a stream; `Stream.LeadsTo.piece` and
  `Stream.LeadsTo.failed` go on from there by one more reading.
* `Stream.read_cases`: a reading of a stream that flows tells the end, or fails, or takes a piece.
* `Stream.delivery` is what is delivered if a stream is read in blocks, and
  `Stream.readAll_eq` says that this is what a loop with a limit finds.
* `Stream.delivery_of_flows`: a stream that flows delivers its bytes, wherever the pieces end.
* `Entry.ending_stream_eq_finished_iff` says which entries can be read to their end.
-/

namespace JavaFloor

namespace Turn

/-- A byte is given at least, if there is one. -/
def Flows : Turn → Prop
  | gives most => 0 < most
  | fails _ _ => False

instance : DecidablePred Flows
  | gives most => inferInstanceAs (Decidable (0 < most))
  | fails _ _ => inferInstanceAs (Decidable False)

/-- No byte is lost. -/
def IsLossless : Turn → Prop
  | gives _ => True
  | fails lost _ => lost = 0

theorem Flows.isLossless {t : Turn} (h : t.Flows) : t.IsLossless := by
  cases t with
  | gives most => trivial
  | fails lost reason => exact h.elim

end Turn

namespace Stream

variable {room : Nat} {served bytes : Bytes} {s left rest : Stream} {reason : Option Bytes}

/-- Every reading gives a byte at least where there are bytes left, and none fails before them. -/
def Flows (s : Stream) : Prop := ∀ t ∈ s.turns, t.Flows

instance : DecidablePred Flows := fun s => inferInstanceAs (Decidable (∀ t ∈ s.turns, t.Flows))

/-! ## Single readings -/

/-- What is left of a stream behind a piece. -/
theorem rest_of_piece (h : s.read room = .piece bytes rest) :
    rest.ending = s.ending ∧
      ∃ spent, s.turns = spent ++ rest.turns ∧ ∀ t ∈ spent, t.IsLossless := by
  have hgive : ∀ {most turns}, s.give most turns = .piece bytes rest →
      rest.ending = s.ending ∧ rest.turns = turns := by
    intro most turns h
    unfold give at h
    split at h
    · split at h <;> simp at h
    · split at h
      · simp at h
      · simp only [Reading.piece.injEq] at h
        rw [← h.2]
        exact ⟨rfl, rfl⟩
  unfold read at h
  split at h
  next hnil =>
    obtain ⟨hending, hturns⟩ := hgive h
    exact ⟨hending, [], by rw [hnil, hturns, List.append_nil], List.forall_mem_nil _⟩
  · simp at h
  next n turns hcons =>
    obtain ⟨hending, rfl⟩ := hgive h
    exact ⟨hending, [.gives (n + 1)], hcons, by simp [Turn.IsLossless]⟩
  · simp at h

/-- What is left of a stream behind a failure: all that there was, or what a turn has not lost. -/
theorem rest_of_failed (h : s.read room = .failed reason rest) :
    rest = s ∨ ∃ lost, s.turns = .fails lost reason :: rest.turns ∧
      rest.pending = s.pending.drop lost ∧ rest.ending = s.ending := by
  have hgive : ∀ {most turns}, s.give most turns = .failed reason rest → rest = s := by
    intro most turns h
    unfold give at h
    split at h
    · split at h
      · simp at h
      · simp only [Reading.failed.injEq] at h
        exact h.2.symm
    · split at h <;> simp at h
  unfold read at h
  split at h
  · exact .inl (hgive h)
  · simp at h
  · exact .inl (hgive h)
  next lost _ turns hcons =>
    simp only [Reading.failed.injEq] at h
    obtain ⟨rfl, rfl⟩ := h
    exact .inr ⟨lost, hcons, rfl, rfl⟩

/-- A piece is not larger than the room for it. -/
theorem length_le_of_read (h : s.read room = .piece bytes rest) : bytes.length ≤ room := by
  have hgive : ∀ {most turns}, s.give most turns = .piece bytes rest → bytes.length ≤ most := by
    intro most turns h
    unfold give at h
    split at h
    · split at h <;> simp at h
    · split at h
      · simp at h
      · simp only [Reading.piece.injEq] at h
        rw [← h.1, List.length_cons]
        exact Nat.succ_le_succ (List.length_take_le _ _)
  unfold read at h
  split at h
  · exact hgive h
  · simp at h
  · exact Nat.le_trans (hgive h) (Nat.min_le_left _ _)
  · simp at h

theorem Flows.piece (hs : s.Flows) (h : s.read room = .piece bytes rest) : rest.Flows := by
  obtain ⟨-, spent, hturns, -⟩ := rest_of_piece h
  intro t ht
  exact hs t (hturns ▸ List.mem_append_right spent ht)

/-- A reading of a stream that flows tells the end, or fails behind the last byte, or takes a piece,
if it has room. -/
theorem read_cases (hs : s.Flows) (hroom : 0 < room) :
    (s.pending = [] ∧ s.ending = .finished ∧ s.read room = .ended) ∨
    (∃ reason, s.pending = [] ∧ s.ending = .broken reason ∧ s.read room = .failed reason s) ∨
    ∃ bytes rest, s.read room = .piece bytes rest := by
  obtain ⟨most, turns, hmost, hread⟩ :
      ∃ most turns, 0 < most ∧ s.read room = s.give most turns := by
    rw [read]
    split
    · exact ⟨room, [], hroom, rfl⟩
    next h => exact absurd (hs (.gives 0) (by simp [h])) (Nat.lt_irrefl 0)
    next n turns _ => exact ⟨min room (n + 1), turns, by omega, rfl⟩
    next lost reason _ h => exact absurd (hs (.fails lost reason) (by simp [h])) id
  rw [hread, give]
  cases s.pending with
  | nil =>
    cases s.ending with
    | finished => exact .inl ⟨rfl, rfl, rfl⟩
    | broken reason => exact .inr (.inl ⟨reason, rfl, rfl, rfl⟩)
  | cons c pending =>
    obtain ⟨n, rfl⟩ := Nat.exists_eq_add_one.2 hmost
    exact .inr (.inr ⟨_, _, rfl⟩)

/-! ## Readings in a row -/

/-- Readings of a stream have given the bytes `served`, and this is left. What stood in front of it
was given, but for what a failing reading has lost. -/
structure LeadsTo (s : Stream) (served : Bytes) (left : Stream) : Prop where
  ending : s.ending = left.ending
  front : ∃ past spent, s.pending = past ++ left.pending ∧ s.turns = spent ++ left.turns ∧
    served.Sublist past ∧ ((∀ t ∈ spent, t.IsLossless) → served = past)

theorem LeadsTo.refl (s : Stream) : s.LeadsTo [] s :=
  ⟨rfl, [], [], rfl, rfl, List.Sublist.refl _, fun _ => rfl⟩

/-- One more reading has taken a piece. -/
theorem LeadsTo.piece (h : s.LeadsTo served left) (hread : left.read room = .piece bytes rest) :
    s.LeadsTo (served ++ bytes) rest := by
  obtain ⟨hending, past, spent, hpending, hturns, hserved, hwhole⟩ := h
  obtain ⟨hrest, more, hmore, hlossless⟩ := rest_of_piece hread
  refine ⟨hending.trans hrest.symm, past ++ bytes, spent ++ more, ?_, ?_, ?_, fun hall => ?_⟩
  · rw [hpending, (pending_of_read hread).1, List.append_assoc]
  · rw [hturns, hmore, List.append_assoc]
  · exact hserved.append (List.Sublist.refl bytes)
  · rw [hwhole fun t ht => hall t (List.mem_append_left _ ht)]

/-- One more reading has failed. -/
theorem LeadsTo.failed (h : s.LeadsTo served left) (hread : left.read room = .failed reason rest) :
    s.LeadsTo served rest := by
  rcases rest_of_failed hread with rfl | ⟨lost, hlost, hdropped, hsame⟩
  · exact h
  · obtain ⟨hending, past, spent, hpending, hturns, hserved, hwhole⟩ := h
    refine ⟨hending.trans hsame.symm, past ++ left.pending.take lost,
      spent ++ [.fails lost reason], ?_, ?_, ?_, fun hall => ?_⟩
    · rw [hpending, hdropped, List.append_assoc, List.take_append_drop]
    · rw [hturns, hlost, List.append_assoc, List.singleton_append]
    · exact hserved.trans (List.sublist_append_left _ _)
    · have hnone : lost = 0 := hall (.fails lost reason) (by simp)
      rw [hwhole fun t ht => hall t (List.mem_append_left _ ht), hnone, List.take_zero,
        List.append_nil]

/-- What was served stood in the stream, in that order. -/
theorem LeadsTo.sublist (h : s.LeadsTo served left) :
    (served ++ left.pending).Sublist s.pending := by
  obtain ⟨-, past, spent, hpending, -, hserved, -⟩ := h
  rw [hpending]
  exact hserved.append (List.Sublist.refl _)

/-- If no reading loses anything, it is what is missing. -/
theorem LeadsTo.pending_eq (h : s.LeadsTo served left) (hs : ∀ t ∈ s.turns, t.IsLossless) :
    s.pending = served ++ left.pending := by
  obtain ⟨-, past, spent, hpending, hturns, -, hwhole⟩ := h
  rw [hpending, hwhole fun t ht => hs t (hturns ▸ List.mem_append_left _ ht)]

theorem LeadsTo.flows (h : s.LeadsTo served left) (hs : s.Flows) : left.Flows := by
  obtain ⟨-, -, spent, -, hturns, -, -⟩ := h
  exact fun t ht => hs t (hturns ▸ List.mem_append_right spent ht)

end Stream

/-! ## Deliveries -/

/-- What is read if all of the bytes have come. -/
def Ending.outcome (bytes : Bytes) : Ending → Except StreamError Bytes
  | finished => .ok bytes
  | broken reason => .error (.broken reason)

/-- Bytes that come, and what comes behind them. -/
structure Delivery where
  bytes : Bytes
  ending : Ending
  deriving DecidableEq

namespace Delivery

/-- What is found if at most `limit` bytes may come. -/
def outcome (limit : UInt64) (d : Delivery) : Except StreamError Bytes :=
  if limit.toNat < d.bytes.length then .error (.tooLong limit) else d.ending.outcome d.bytes

/-- All of it comes, and it is not too much. -/
structure Arrives (limit : UInt64) (d : Delivery) : Prop where
  ending : d.ending = .finished
  length_le : d.bytes.length ≤ limit.toNat

theorem outcome_eq_ok_iff {limit : UInt64} {d : Delivery} {bytes : Bytes} :
    d.outcome limit = .ok bytes ↔ d.Arrives limit ∧ d.bytes = bytes := by
  rw [outcome]
  by_cases hlimit : limit.toNat < d.bytes.length
  · rw [if_pos hlimit]
    exact iff_of_false nofun fun h => Nat.not_lt.2 h.1.length_le hlimit
  · rw [if_neg hlimit]
    cases hending : d.ending with
    | broken reason => exact iff_of_false nofun fun h => by simp [h.1.ending] at hending
    | finished =>
      rw [Ending.outcome, Except.ok.injEq]
      exact (and_iff_right ⟨hending, Nat.not_lt.1 hlimit⟩).symm

end Delivery

namespace Stream

variable {limit count : UInt64} {front bytes : Bytes} {s rest : Stream} {reason : Option Bytes}

/-! ### The loop -/

theorem readOn_of_failed (h : s.read blockSize = .failed reason rest) :
    s.readOn limit count front = .error (.broken reason) := by
  rw [readOn]
  split <;> simp_all

theorem readOn_of_ended (h : s.read blockSize = .ended) :
    s.readOn limit count front = .ok front.reverse := by
  rw [readOn]
  split <;> simp_all

theorem readOn_of_piece (h : s.read blockSize = .piece bytes rest) :
    s.readOn limit count front =
      if limit < count + UInt64.ofNat bytes.length then .error (.tooLong limit)
      else rest.readOn limit (count + UInt64.ofNat bytes.length) (bytes.reverse ++ front) := by
  rw [readOn]
  split <;> simp_all

/-- What a stream delivers if it is read in blocks, until a reading gives nothing or fails. -/
def delivery (s : Stream) : Delivery :=
  match _h : s.read blockSize with
  | .failed reason _ => ⟨[], .broken reason⟩
  | .ended => ⟨[], .finished⟩
  | .piece bytes rest => ⟨bytes ++ rest.delivery.bytes, rest.delivery.ending⟩
termination_by s.pending.length
decreasing_by all_goals exact length_of_read _h

theorem delivery_of_failed (h : s.read blockSize = .failed reason rest) :
    s.delivery = ⟨[], .broken reason⟩ := by
  rw [delivery]
  split <;> simp_all

theorem delivery_of_ended (h : s.read blockSize = .ended) : s.delivery = ⟨[], .finished⟩ := by
  rw [delivery]
  split <;> simp_all

theorem delivery_of_piece (h : s.read blockSize = .piece bytes rest) :
    s.delivery = ⟨bytes ++ rest.delivery.bytes, rest.delivery.ending⟩ := by
  rw [delivery]
  split <;> simp_all

/-- What is delivered are the first bytes of the stream. -/
theorem delivery_prefix (s : Stream) : s.delivery.bytes <+: s.pending := by
  induction s using delivery.induct with
  | case1 s reason rest h =>
    rw [delivery_of_failed h]
    exact List.nil_prefix
  | case2 s h =>
    rw [delivery_of_ended h]
    exact List.nil_prefix
  | case3 s bytes rest h ih =>
    rw [delivery_of_piece h, (pending_of_read h).1]
    exact (List.prefix_append_right_inj bytes).2 ih

/-- **A stream that flows delivers its bytes**, wherever the pieces end. -/
theorem delivery_of_flows (hs : s.Flows) : s.delivery = ⟨s.pending, s.ending⟩ := by
  induction s using delivery.induct with
  | case1 s reason rest h =>
    rcases read_cases hs (by decide : 0 < blockSize) with
      ⟨-, -, heq⟩ | ⟨_, hnil, hending, heq⟩ | ⟨_, _, heq⟩
    all_goals rw [h] at heq; cases heq
    rw [delivery_of_failed h, hnil, hending]
  | case2 s h =>
    rcases read_cases hs (by decide : 0 < blockSize) with
      ⟨hnil, hending, heq⟩ | ⟨_, -, -, heq⟩ | ⟨_, _, heq⟩
    all_goals rw [h] at heq; cases heq
    rw [delivery_of_ended h, hnil, hending]
  | case3 s bytes rest h ih =>
    rw [delivery_of_piece h, ih (hs.piece h), (pending_of_read h).1, (rest_of_piece h).1]

/-! ### Words -/

/-- Sizes of 64 bits can count what is read, up to the limit and one block more: this is in their
range, or all that is delivered is. -/
def Countable (limit : UInt64) (s : Stream) : Prop :=
  limit.toNat + blockSize < UInt64.size ∨ s.delivery.bytes.length < UInt64.size

/-- Behind `count` bytes, of which there are not more than `limit`, the rest of a stream can be
counted. -/
def CountableOn (limit count : UInt64) (s : Stream) : Prop :=
  count.toNat ≤ limit.toNat ∧
    (limit.toNat + blockSize < UInt64.size ∨ count.toNat + s.delivery.bytes.length < UInt64.size)

theorem Countable.start (h : s.Countable limit) : s.CountableOn limit 0 :=
  ⟨Nat.zero_le _, by simpa [Countable] using h⟩

/-- A stream of less than `UInt64.size` bytes can be counted. -/
theorem countable_of_length (h : s.pending.length < UInt64.size) : s.Countable limit :=
  .inr (Nat.lt_of_le_of_lt s.delivery_prefix.length_le h)

theorem CountableOn.toNat_add (h : s.CountableOn limit count)
    (hread : s.read blockSize = .piece bytes rest) :
    (count + UInt64.ofNat bytes.length).toNat = count.toNat + bytes.length := by
  have hlt : count.toNat + bytes.length < UInt64.size := by
    have hsize := length_le_of_read hread
    obtain ⟨hcount, hroom | hall⟩ := h
    · omega
    · rw [delivery_of_piece hread, List.length_append] at hall
      omega
  rw [UInt64.toNat_add, UInt64.toNat_ofNat', Nat.add_mod_mod, Nat.mod_eq_of_lt hlt]

theorem CountableOn.tail (h : s.CountableOn limit count)
    (hread : s.read blockSize = .piece bytes rest)
    (hlimit : ¬ limit < count + UInt64.ofNat bytes.length) :
    rest.CountableOn limit (count + UInt64.ofNat bytes.length) := by
  have hsum := h.toNat_add hread
  rw [UInt64.lt_iff_toNat_lt, hsum] at hlimit
  refine ⟨by omega, h.2.imp_right fun hall => ?_⟩
  rw [delivery_of_piece hread, List.length_append] at hall
  omega

/-- The limit is exceeded at some piece if it is exceeded by all of them together. -/
theorem readOn_eq (h : s.CountableOn limit count) (front : Bytes) :
    s.readOn limit count front =
      if limit.toNat < count.toNat + s.delivery.bytes.length then .error (.tooLong limit)
      else s.delivery.ending.outcome (front.reverse ++ s.delivery.bytes) := by
  induction count, front, s using readOn.induct limit with
  | case1 count front s reason rest hread =>
    rw [readOn_of_failed hread, delivery_of_failed hread, List.length_nil, Nat.add_zero,
      if_neg (Nat.not_lt.2 h.1)]
    rfl
  | case2 count front s hread =>
    rw [readOn_of_ended hread, delivery_of_ended hread, List.length_nil, Nat.add_zero,
      if_neg (Nat.not_lt.2 h.1), List.append_nil]
    rfl
  | case3 count front s bytes rest hread more hlimit =>
    rw [readOn_of_piece hread, if_pos hlimit, delivery_of_piece hread, if_pos]
    rw [UInt64.lt_iff_toNat_lt, h.toNat_add hread] at hlimit
    rw [List.length_append]
    omega
  | case4 count front s bytes rest hread more hlimit ih =>
    rw [readOn_of_piece hread, if_neg hlimit, ih (h.tail hread hlimit), delivery_of_piece hread,
      h.toNat_add hread, List.length_append, Nat.add_assoc, List.reverse_append,
      List.reverse_reverse, List.append_assoc]

/-- **A loop with a limit finds what is delivered.** -/
theorem readAll_eq (h : s.Countable limit) : s.readAll limit = s.delivery.outcome limit := by
  rw [readAll, readOn_eq h.start, Delivery.outcome, List.reverse_nil, List.nil_append,
    UInt64.toNat_zero, Nat.zero_add]

end Stream

/-! ## Contents of entries -/

namespace Entry

variable {e : Entry}

/-- All of the content can be read. -/
def IsIntact (e : Entry) : Prop := ∀ fault ∈ e.readFault, e.content.length < fault.1

/-- Every reading of the content gives a byte at least where there are bytes left, and none fails
before them. -/
def Flows (e : Entry) : Prop := ∀ t ∈ e.turns, t.Flows

instance : DecidablePred Flows := fun e => inferInstanceAs (Decidable (∀ t ∈ e.turns, t.Flows))

@[simp]
theorem turns_stream (e : Entry) : e.stream.turns = e.turns := by
  rw [stream]
  unfold Stream.ofContent
  split
  · split <;> rfl
  · rfl

theorem Flows.stream (h : e.Flows) : e.stream.Flows := by
  rw [Stream.Flows, turns_stream]
  exact h

/-- No byte of a content comes that is not there. -/
theorem pending_stream (e : Entry) : e.stream.pending <+: e.content := by
  simp only [stream]
  unfold Stream.ofContent
  split
  · split
    · exact List.take_prefix _ _
    · exact List.prefix_rfl
  · exact List.prefix_rfl

/-- An entry that does not break off is delivered as a whole. -/
theorem pending_of_finished (h : e.stream.ending = .finished) : e.stream.pending = e.content := by
  rw [stream] at h ⊢
  unfold Stream.ofContent at h ⊢
  split at h
  · split at h
    · cases h
    next hlate => simp only [if_neg hlate]
  · rfl

/-- The content comes to its end if all of it can be read. -/
theorem ending_stream_eq_finished_iff : e.stream.ending = .finished ↔ e.IsIntact := by
  rw [stream, IsIntact]
  unfold Stream.ofContent
  split
  next offset reason hfault =>
    rw [hfault]
    split
    next hle => exact iff_of_false nofun fun h => Nat.not_lt.2 hle (h _ rfl)
    next hlate =>
      refine iff_of_true rfl fun fault h => ?_
      obtain rfl := Option.some.inj h
      exact Nat.not_le.1 hlate
  next hnone => exact iff_of_true rfl (by simp [hnone])

/-- A content that flows arrives if all of it can be read and it is not too long. -/
theorem arrives_iff_of_flows (h : e.Flows) {limit : UInt64} {text : Bytes} :
    e.stream.delivery.Arrives limit ∧ e.stream.delivery.bytes = text ↔
      e.IsIntact ∧ e.content.length ≤ limit.toNat ∧ e.content = text := by
  rw [Stream.delivery_of_flows h.stream, ← ending_stream_eq_finished_iff]
  constructor
  · rintro ⟨⟨hending, hlength⟩, hbytes⟩
    rw [pending_of_finished hending] at hlength hbytes
    exact ⟨hending, hlength, hbytes⟩
  · rintro ⟨hending, hlength, hbytes⟩
    rw [← pending_of_finished hending] at hlength hbytes
    exact ⟨⟨hending, hlength⟩, hbytes⟩

end Entry

end JavaFloor
