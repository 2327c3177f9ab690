import JavaFloor.Proofs.Archive.Reading

/-!
# Reading an entry to its end

A walk goes on when the current entry is finished, and an entry is finished by the first reading
that gives nothing. Here it is said that this happens when all of the content was delivered and not
before, if a reading that has room gives a byte at least where there are bytes left and nothing
fails.

* `Entry.BreaksBehind`: the content cannot be read any further than this.
* `Session.Unfinished` and `Session.Finished` say what the operations answer before the end was told
  and from then on; `Session.unfinished_of_serving` and `Session.finished_of_outside` have this of
  the places of a walk.
* `Session.step_inside` and `Session.step_outside` say what an operation that neither skips nor
  yields does to these, and `Session.inside_or_finished` what a run of them does.
* `Session.streams_to_the_end` puts this together.
-/

namespace JavaFloor

deriving instance DecidableEq for WalkReply

namespace Entry

variable {e : Entry} {bytes : Bytes}

/-- The content of an entry breaks off behind the bytes. -/
def BreaksBehind (e : Entry) (bytes : Bytes) : Prop :=
  ∃ offset reason, e.readFault = some (offset, reason) ∧ offset ≤ e.content.length ∧
    bytes = e.content.take offset

/-- An entry breaks off where its stream does. -/
theorem breaksBehind_iff :
    e.BreaksBehind bytes ↔ e.stream.ending ≠ .finished ∧ e.stream.pending = bytes := by
  rw [BreaksBehind, stream]
  unfold Stream.ofContent
  split
  next offset reason hfault =>
    split
    next hle =>
      rw [hfault]
      constructor
      · rintro ⟨_, _, ⟨⟩, -, rfl⟩
        exact ⟨by simp, rfl⟩
      · rintro ⟨-, rfl⟩
        exact ⟨offset, reason, rfl, hle, rfl⟩
    next hlate =>
      refine iff_of_false ?_ fun h => h.1 rfl
      rintro ⟨_, _, hsome, hle, -⟩
      rw [hfault] at hsome
      cases hsome
      exact hlate hle
  next hnone => exact iff_of_false (by simp [hnone]) fun h => h.1 rfl

end Entry

/-- An operation that does not give up the current entry, and that asks for a byte at least if it
reads. -/
def WalkOp.GoesOn : WalkOp → Prop
  | .skip => False
  | .read room => 0 < room
  | _ => True

namespace Session

variable {lib : Library} {s : Session}

/-! ## Before and after the end was told -/

/-- What is answered in the entry `e`, of which `bytes` were delivered, before its end was told. -/
structure Unfinished (lib : Library) (s : Session) (e : Entry) (bytes : Bytes) : Prop where
  /-- To go on is refused, and changes nothing. -/
  next : s.step lib .next = (.yielded (.error .entryOpen), s)
  /-- A reading fails where the content breaks off, and can then be repeated. Otherwise it gives the
  bytes that come next, and none if and only if all of them were delivered. -/
  read : s.mayRead = true → ∀ room, 0 < room → ∃ answer,
    (s.step lib (.read room)).1 = .bytes answer ∧
    (answer = none ↔ e.BreaksBehind bytes) ∧ (answer = none → (s.step lib (.read room)).2 = s) ∧
    (answer = some [] ↔ bytes = e.content ∧ answer ≠ none) ∧
    ∀ piece, answer = some piece → bytes ++ piece <+: e.content
  /-- Behind a skip the walk goes on. -/
  skip : ¬ ((s.step lib .skip).2.step lib .next).1.IsRefusal

/-- What is answered once the end was told. -/
structure Finished (lib : Library) (s : Session) : Prop where
  next : ¬ (s.step lib .next).1.IsRefusal
  skip : s.step lib .skip = (.done (.ok ()), s)
  read : s.mayRead = true → ∀ room, s.step lib (.read room) = (.bytes (some []), s)

theorem not_isRefusal_next {p : Position} (hp : s.walk.position = some p)
    (hin : p.inEntry = false) : ¬ (s.step lib .next).1.IsRefusal := by
  simp only [step, Walk.next, hp, hin, Bool.false_eq_true, if_false]
  exact not_isRefusal_advance _ _ _

/-- Outside of an entry its end was told. -/
theorem finished_of_outside {p : Position} (hp : s.walk.position = some p)
    (hin : p.inEntry = false) : Finished lib s where
  next := not_isRefusal_next hp hin
  skip := by
    have hskip : s.walk.skip = (.ok (), s.walk) := by simp [Walk.skip, hp, hin]
    rw [step, hskip]
  read hmay room := by
    refine step_read_of_outside ?_ hmay room
    simp [Walk.inEntry, hp, hin]

/-- A reading that fails behind the last byte changes nothing. -/
theorem walk_read_of_failed {p : Position} (hp : s.walk.position = some p) (hin : p.inEntry = true)
    {room : Nat} {reason : Option Bytes} (h : p.unread.read room = .failed reason p.unread) :
    s.walk.read room = (none, s.walk) := by
  have hsame : (⟨s.walk.path, some p⟩ : Walk) = s.walk := by rw [← hp]
  have hread : s.walk.read room = (none, ⟨s.walk.path, some { p with unread := p.unread }⟩) := by
    rw [Walk.read, hp]
    dsimp only
    rw [if_pos hin, h]
  exact hread.trans (congrArg (Prod.mk none) hsame)

theorem step_read (hmay : s.mayRead = true) (room : Nat) :
    s.step lib (.read room) =
      (.bytes (s.walk.read room).1, { s with walk := (s.walk.read room).2 }) := by
  rw [step, if_pos hmay]

/-- What was served of an entry that flows stood in front of what is left. -/
theorem Serving.pending_eq {ops : List WalkOp} {p : Position} {e : Entry}
    (h : Serving lib ops p e) (hflows : e.Flows) :
    e.stream.pending = served lib ops ++ p.unread.pending :=
  h.stream.pending_eq fun t ht => (hflows.stream t ht).isLossless

/-- What was served are the first bytes of the content. -/
theorem Serving.served_prefix {ops : List WalkOp} {p : Position} {e : Entry}
    (h : Serving lib ops p e) (hflows : e.Flows) : served lib ops <+: e.content :=
  List.IsPrefix.trans ⟨_, (h.pending_eq hflows).symm⟩ e.pending_stream

/-- Inside of an entry its end was not told yet. -/
theorem unfinished_of_serving {ops : List WalkOp} {p : Position} {e : Entry}
    (h : Serving lib ops p e) (hp : (after lib ops).walk.position = some p)
    (hin : p.inEntry = true) (hflows : e.Flows) :
    Unfinished lib (after lib ops) e (served lib ops) := by
  have hpending := h.pending_eq hflows
  have hending := h.stream.ending
  refine ⟨?_, fun hmay room hroom => ?_, ?_⟩
  · have hnext : (after lib ops).walk.next lib = (.error .entryOpen, (after lib ops).walk) := by
      simp [Walk.next, hp, hin]
    rw [step, hnext]
  · rw [step_read hmay, Entry.breaksBehind_iff, hending, hpending]
    refine ⟨_, rfl, ?_⟩
    rcases Stream.read_cases (h.stream.flows hflows.stream) hroom with
      ⟨hnil, hfinished, heq⟩ | ⟨reason, hnil, hbroken, heq⟩ | ⟨bytes, rest, heq⟩
    · have hall : served lib ops = e.content := by
        rw [← Entry.pending_of_finished (hending.trans hfinished), hpending, hnil, List.append_nil]
      simp [Walk.read, hp, hin, heq, hfinished, hall]
    · simp [walk_read_of_failed hp hin heq, hnil, hbroken]
    · -- a piece is not empty, so something was left to deliver
      obtain ⟨htaken, hne⟩ := Stream.pending_of_read heq
      have hnext := (h.piece heq).2.2 fun t ht => (hflows t ht).isLossless
      have hsome : served lib ops ≠ e.content := by
        intro hall
        have hlength := hnext.length_le
        rw [hall, List.length_append] at hlength
        have := List.length_pos_iff.2 hne
        omega
      simp [Walk.read, hp, hin, heq, htaken, hne, hsome, hnext]
  · refine not_isRefusal_next (p := { p with inEntry := false }) ?_ rfl
    simp only [step, Walk.skip, hp, hin, if_true]
    split <;> rfl

/-! ## Operations that go on -/

/-- In an entry, an operation that goes on leaves it only by telling its end. -/
theorem step_inside {p : Position} (hp : s.walk.position = some p) (hin : p.inEntry = true)
    (hflows : p.unread.Flows) {op : WalkOp} (hop : op.GoesOn) :
    ((s.step lib op).2.walk.inEntry = true ∧ (s.step lib op).1 ≠ .bytes (some [])) ∨
    ((s.step lib op).2.walk.inEntry = false ∧ (s.step lib op).2.walk.position.isSome ∧
      (s.step lib op).1 = .bytes (some []) ∧ p.unread.pending = [] ∧
      p.unread.ending = .finished) := by
  have hinside : s.walk.inEntry = true := Walk.inEntry_eq_true.2 ⟨p, hp, hin⟩
  cases op with
  | openPath named =>
    refine .inl ⟨?_, fun h => by cases h⟩
    simpa [step, Walk.openPath, hp] using hinside
  | next =>
    refine .inl ⟨?_, fun h => by cases h⟩
    simpa [step, Walk.next, hp, hin] using hinside
  | openEntry => exact .inl ⟨hinside, fun h => by cases h⟩
  | skip => exact absurd hop id
  | path => exact .inl ⟨hinside, fun h => by cases h⟩
  | total =>
    refine .inl ⟨hinside, ?_⟩
    rw [step]
    split <;> simp
  | read room =>
    cases hmay : s.mayRead with
    | false => exact .inl (by simpa [step, hmay] using hinside)
    | true =>
      rw [step_read hmay]
      rcases Stream.read_cases hflows hop with
        ⟨hnil, hfinished, heq⟩ | ⟨reason, -, -, heq⟩ | ⟨bytes, rest, heq⟩
      · refine .inr ⟨?_, ?_, ?_, hnil, hfinished⟩ <;> simp [Walk.read, hp, hin, heq, Walk.inEntry]
      · refine .inl ?_
        rw [walk_read_of_failed hp hin heq]
        exact ⟨hinside, fun h => by cases h⟩
      · refine .inl ?_
        simp [Walk.read, hp, hin, heq, Walk.inEntry, (Stream.pending_of_read heq).2]

/-- Outside of an entry, an operation that yields nothing stays there and serves nothing. -/
theorem step_outside {p : Position} (hp : s.walk.position = some p) (hin : p.inEntry = false)
    {op : WalkOp} (hyields : (s.step lib op).1.feature? = none) :
    (s.step lib op).2.walk.inEntry = false ∧ (s.step lib op).2.walk.position.isSome ∧
      ∀ front, (s.step lib op).1.servedBehind front = front := by
  have houtside : s.walk.inEntry = false := by simp [Walk.inEntry, hp, hin]
  have hsome : s.walk.position.isSome := by rw [hp]; rfl
  cases op with
  | openPath named =>
    refine ⟨?_, ?_, fun front => rfl⟩
    · simpa [step, Walk.openPath, hp] using houtside
    · simp [step, Walk.openPath, hp]
  | next =>
    have hstep : s.step lib .next = (.yielded (p.advance lib s.walk.path).1,
        { s with walk := ⟨s.walk.path, some (p.advance lib s.walk.path).2⟩ }) := by
      simp only [step, Walk.next, hp, hin, Bool.false_eq_true, if_false]
    rw [hstep] at hyields ⊢
    rcases Position.advance_cases lib s.walk.path hin with ⟨_, e, _, _, _, _, hsome⟩ | hnone
    · simp [hsome, WalkReply.feature?] at hyields
    · refine ⟨hnone.inEntry, rfl, fun front => ?_⟩
      rcases hreply : (p.advance lib s.walk.path).1 with error | _ | f
      · rfl
      · rfl
      · exact absurd hreply (hnone.reply f)
  | openEntry => exact ⟨houtside, hsome, fun front => rfl⟩
  | skip =>
    refine ⟨?_, ?_, fun front => rfl⟩
    · simpa [step, Walk.skip, hp, hin] using houtside
    · simp [step, Walk.skip, hp, hin]
  | path => exact ⟨houtside, hsome, fun front => rfl⟩
  | total =>
    refine ⟨houtside, hsome, fun front => ?_⟩
    rw [step]
    split <;> rfl
  | read room =>
    cases hmay : s.mayRead with
    | false =>
      refine ⟨?_, ?_, fun front => ?_⟩
      · simpa [step, hmay] using houtside
      · simpa [step, hmay] using hsome
      · simp [step, hmay, WalkReply.servedBehind]
    | true =>
      rw [step_read_of_outside houtside hmay]
      exact ⟨houtside, hsome, List.append_nil⟩

/-! ## Runs -/

theorem after_append (lib : Library) (before between : List WalkOp) :
    after lib (before ++ between) = ((after lib before).run lib between).2 := by
  induction between using List.reverseRecOn with
  | nil => simp [run]
  | append_singleton between op ih =>
    rw [← List.append_assoc, after_concat, ih, run_concat]

/-- What is yielded is an entry of the archive, and the walk is in it from then on. -/
theorem current?_of_yielded {before : List WalkOp} {f : FeatureEntry}
    (h : ((after lib before).step lib .next).1 = .yielded (.ok (some f))) :
    ∃ e ∈ (opened? lib before).getD [], e.feature = f ∧
      (after lib (before ++ [.next])).walk.current? = some e := by
  rw [after_concat]
  rcases step_cases lib (after lib before) .next with
    ⟨-, hnone, -⟩ | ⟨-, -, -, hnone, -⟩ | ⟨p, -, hp, hin, hreply, hleft⟩
  · exact absurd h (hnone _)
  · exact absurd h (hnone _)
  · rw [hreply] at h
    rcases Position.advance_cases lib (after lib before).walk.path hin with
      ⟨front, e, behind, kind, hahead, -, hadvance⟩ | ⟨hnone, -, -, -⟩
    · rw [hadvance] at h hleft
      obtain rfl : e.feature = f := by simpa using h
      refine ⟨e, mem_opened?_of_upcoming hp ?_, rfl, Walk.current?_eq_some.2 ⟨_, hleft, rfl, rfl⟩⟩
      rw [hahead]
      exact List.mem_append_right _ List.mem_cons_self
    · simp only [WalkReply.yielded.injEq] at h
      exact absurd h (hnone f)

/-- Operations that go on and yield nothing end in the entry that they began in, the end of which
was not told, or outside of it, all of it being delivered. -/
theorem inside_or_finished {before : List WalkOp} {e : Entry}
    (he : (after lib before).walk.current? = some e) (hflows : e.Flows)
    {between : List WalkOp} (hbetween : ∀ op ∈ between, op.GoesOn)
    (hstays : yields lib (before ++ between) = yields lib before) :
    ((after lib (before ++ between)).walk.current? = some e ∧
      .bytes (some []) ∉ ((after lib before).run lib between).1) ∨
    (∃ p, (after lib (before ++ between)).walk.position = some p ∧ p.inEntry = false ∧
      .bytes (some []) ∈ ((after lib before).run lib between).1 ∧
      served lib (before ++ between) = e.content) := by
  induction between using List.reverseRecOn with
  | nil =>
    rw [List.append_nil]
    exact .inl ⟨he, by simp [run]⟩
  | append_singleton between op ih =>
    obtain ⟨hop, hbefore⟩ : op.GoesOn ∧ ∀ op ∈ between, op.GoesOn := by
      simpa [or_imp, forall_and, and_comm] using hbetween
    obtain ⟨hstayed, hlast⟩ := yields_of_concat hstays
    rw [← List.append_assoc, after_concat, served_concat, run_concat, ← after_append,
      List.mem_append, List.mem_singleton, not_or]
    rcases ih hbefore hstayed with ⟨hcurrent, htold⟩ | ⟨p, hp, hin, htold, hserved⟩
    · obtain ⟨p, hp, hin, hserving⟩ := serving_of_current? hcurrent
      rcases step_inside hp hin (hserving.stream.flows hflows.stream) hop with
        ⟨hinside, hreply⟩ | ⟨houtside, hsome, hreply, hnil, hfinished⟩
      · refine .inl ⟨?_, htold, fun h => hreply h.symm⟩
        cases hnew : ((after lib (before ++ between)).step lib op).2.walk.current? with
        | none =>
          rw [← after_concat] at hnew hinside
          rw [inEntry_of_current?_eq_none hnew] at hinside
          cases hinside
        | some e' => rw [← current?_of_step hlast hnew, hcurrent]
      · obtain ⟨q, hq⟩ := Option.isSome_iff_exists.1 hsome
        refine .inr ⟨q, hq, ?_, .inr hreply.symm, ?_⟩
        · simpa [Walk.inEntry, hq] using houtside
        · have hending : e.stream.ending = .finished := hserving.stream.ending.trans hfinished
          rw [hreply, ← Entry.pending_of_finished hending, hserving.pending_eq hflows, hnil]
          rfl
    · obtain ⟨houtside, hsome, hsilent⟩ := step_outside hp hin hlast
      obtain ⟨q, hq⟩ := Option.isSome_iff_exists.1 hsome
      refine .inr ⟨q, hq, ?_, .inl htold, ?_⟩
      · simpa [Walk.inEntry, hq] using houtside
      · rw [hsilent, hserved]

/-- **An entry is streamed to its end, and only then does the walk go on.**

Take any run in which an entry was yielded, and go on without skipping and with readings that have
room, until some later moment at which no other entry was yielded yet. If every reading of the entry
gives a byte at least, in pieces of any sizes, then the bytes delivered so far, through whichever
reader, are the first ones of its content. As long as no reading gave nothing, to go on is refused
and loses nothing, also when a reading fails, and a reading that does not fail gives nothing if and
only if all was delivered. Once a reading gave nothing, all was delivered; from then on the walk
goes on when asked, there is nothing to be skipped, and further readings give nothing. -/
theorem streams_to_the_end (lib : Library) (before between : List WalkOp) (f : FeatureEntry)
    (hyield : ((after lib before).step lib .next).1 = .yielded (.ok (some f)))
    (hbetween : ∀ op ∈ between, op.GoesOn)
    (hstays : yields lib (before ++ [.next] ++ between) = yields lib (before ++ [.next])) :
    ∃ e ∈ (opened? lib before).getD [], e.feature = f ∧
      (after lib (before ++ [.next])).walk.current? = some e ∧
      (e.Flows →
        let replies := ((after lib (before ++ [.next])).run lib between).1
        let s := after lib (before ++ [.next] ++ between)
        let bytes := served lib (before ++ [.next] ++ between)
        bytes <+: e.content ∧ (.bytes (some []) ∉ replies → Unfinished lib s e bytes) ∧
          (.bytes (some []) ∈ replies → bytes = e.content ∧ Finished lib s)) := by
  obtain ⟨e, hmem, hfeature, he⟩ := current?_of_yielded hyield
  refine ⟨e, hmem, hfeature, he, fun hflows => ?_⟩
  rcases inside_or_finished he hflows hbetween hstays with
    ⟨hcurrent, htold⟩ | ⟨p, hp, hin, htold, hserved⟩
  · obtain ⟨p, hp, hin, hserving⟩ := serving_of_current? hcurrent
    exact ⟨hserving.served_prefix hflows, fun _ => unfinished_of_serving hserving hp hin hflows,
      fun h => absurd h htold⟩
  · refine ⟨?_, fun h => absurd htold h, fun _ => ⟨hserved, finished_of_outside hp hin⟩⟩
    exact hserved ▸ List.prefix_rfl

/-- An entry whose end was told after it had been asked for too early, and one that breaks off
behind its first byte. -/
theorem streams_to_the_end_broken : ∃ (lib : Library) (first second : List WalkOp) (a b : Entry),
    (after lib first).mayRead = true ∧ served lib first = a.content ∧ a.content = ascii "abc" ∧
      Finished lib (after lib first) ∧ (after lib second).mayRead = true ∧
      b.BreaksBehind (ascii "x") ∧ Unfinished lib (after lib second) b (ascii "x") := by
  let a : Entry :=
    ⟨some (ascii "a.jar"), .file, none, ascii "abc", [.gives 2, .gives 1], .ok, none, none, none⟩
  let b : Entry :=
    ⟨some (ascii "b.jar"), .file, none, ascii "xyz", [.gives 2], .ok, none, some (1, none), none⟩
  let lib : Library := .ofTables [([], .entries [a, b])] [(ascii "f.esa", [])]
  let opened : List WalkOp := [.openPath (ascii "f.esa")]
  let reading : List WalkOp := [.openEntry, .next, .read 5, .read 1, .next, .read 5]
  let skipped : List WalkOp := opened ++ [.next, .openEntry, .read 1, .skip]
  let broken : List WalkOp := [.read 5, .read 5, .next, .read 1]
  obtain ⟨e, -, -, he, hfirst⟩ := streams_to_the_end lib opened reading a.feature rfl
    (by simp [reading, WalkOp.GoesOn]) rfl
  obtain rfl : a = e := Option.some.inj he
  obtain ⟨e, -, -, he, hsecond⟩ := streams_to_the_end lib skipped broken b.feature rfl
    (by simp [broken, WalkOp.GoesOn]) rfl
  obtain rfl : b = e := Option.some.inj he
  obtain ⟨-, -, htold⟩ := hfirst (by decide)
  obtain ⟨-, huntold, -⟩ := hsecond (by decide)
  obtain ⟨hall, hfinished⟩ := htold (by decide +kernel)
  exact ⟨lib, _, _, a, b, rfl, hall, rfl, hfinished, rfl, ⟨1, none, rfl, by decide, rfl⟩,
    huntold (by decide +kernel)⟩

end Session

end JavaFloor
