import JavaFloor.Proofs.Archive.Yields
import JavaFloor.Proofs.Stream

/-!
# What a reader reads

The right to read an entry is a right to read whichever entry is current. So a reader that was
opened in one entry is silent once that entry is finished or skipped, and speaks again when another
entry is yielded: it then delivers the bytes of an entry that it has nothing to do with, and uses
them up.

* `Walk.current?` is the entry that a walk is in, `Session.served` what was read of it since it was
  yielded.
* `Session.position_cases` says what one operation can do to the place of a walk: nothing, or it
  leads out of an entry, or into the next one, or reads from the current one.
* `Session.Serving` says what a run has to do with the entry that it is in: readings of its content
  have given what was served, and led to what is left. `Session.serving_of_run` has this of every
  run.
* `Session.reader_serves_current` says which entry a reader reads from, and thus when it is its own.
-/

namespace JavaFloor

/-- The entry that a walk is in. -/
def Walk.current? (w : Walk) : Option Entry :=
  w.position.bind fun p => if p.inEntry then p.current else none

theorem Walk.current?_eq_some {w : Walk} {e : Entry} :
    w.current? = some e ↔ ∃ p, w.position = some p ∧ p.inEntry = true ∧ p.current = some e := by
  simp [current?, Option.bind_eq_some_iff]

/-- The bytes handed out of the current entry, `front` before an answer and more with it. An answer
that yields an entry starts anew. -/
def WalkReply.servedBehind (front : Bytes) : WalkReply → Bytes
  | .yielded (.ok (some _)) => []
  | .bytes (some piece) => front ++ piece
  | _ => front

namespace Session

variable {lib : Library} {s : Session} {ops : List WalkOp}

/-- The bytes that were handed out since an entry was last yielded, by whichever reader. -/
def served (lib : Library) (ops : List WalkOp) : Bytes :=
  (start.run lib ops).1.foldl WalkReply.servedBehind []

theorem served_concat (lib : Library) (ops : List WalkOp) (op : WalkOp) :
    served lib (ops ++ [op]) = ((after lib ops).step lib op).1.servedBehind (served lib ops) := by
  rw [served, run_concat, List.foldl_concat]
  rfl

/-! ## One operation -/

/-- **What an operation can do to the place of a walk**: nothing, or it leads out of an entry, or
into an entry that it yields, or a reading takes a piece of the current entry or fails. -/
theorem position_cases (lib : Library) (s : Session) (op : WalkOp) :
    ((s.step lib op).2.walk.position = s.walk.position ∧ (s.step lib op).1.feature? = none ∧
      ∀ front, (s.step lib op).1.servedBehind front = front) ∨
    (s.step lib op).2.walk.inEntry = false ∨
    (∃ p front e behind seen, s.walk.position = some p ∧ p.upcoming = front ++ e :: behind ∧
      (s.step lib op).1 = .yielded (.ok (some e.feature)) ∧
      (s.step lib op).2.walk.position = some ⟨behind, some e, e.stream, true, seen, false⟩) ∨
    (∃ p bytes rest room, s.walk.position = some p ∧ p.inEntry = true ∧
      p.unread.read room = .piece bytes rest ∧ (s.step lib op).1 = .bytes (some bytes) ∧
      (s.step lib op).2.walk.position = some { p with unread := rest }) ∨
    (∃ p reason rest room, s.walk.position = some p ∧ p.inEntry = true ∧
      p.unread.read room = .failed reason rest ∧ (s.step lib op).1 = .bytes none ∧
      (s.step lib op).2.walk.position = some { p with unread := rest }) := by
  obtain ⟨⟨path, position⟩, mayRead⟩ := s
  cases op with
  | openPath named =>
    cases position with
    | some p => exact .inl ⟨rfl, rfl, fun _ => rfl⟩
    | none =>
      refine .inr (.inl ?_)
      cases hlib : lib.openPath named <;>
        simp [step, Walk.openPath, hlib, Walk.inEntry, Position.start]
  | next =>
    cases position with
    | none => exact .inl ⟨rfl, rfl, fun _ => rfl⟩
    | some p =>
      cases hin : p.inEntry with
      | true =>
        refine .inl ?_
        simp [step, Walk.next, hin, WalkReply.feature?, WalkReply.servedBehind]
      | false =>
        rcases Position.advance_cases lib path hin with
          ⟨front, e, behind, kind, hahead, -, hadvance⟩ | hnone
        · refine .inr (.inr (.inl ⟨p, front, e, behind,
            p.manifestSeen || kind == .subsystemManifest, rfl, hahead, ?_, ?_⟩))
          all_goals simp only [step, Walk.next, hin, hadvance, Bool.false_eq_true, if_false]
        · refine .inr (.inl ?_)
          simp only [step, Walk.next, hin, Walk.inEntry, Bool.false_eq_true, if_false]
          exact hnone.inEntry
  | openEntry => exact .inl ⟨rfl, rfl, fun _ => rfl⟩
  | skip =>
    cases position with
    | none => exact .inl ⟨rfl, rfl, fun _ => rfl⟩
    | some p =>
      cases hin : p.inEntry with
      | false =>
        refine .inl ?_
        simp [step, Walk.skip, hin, WalkReply.feature?, WalkReply.servedBehind]
      | true =>
        refine .inr (.inl ?_)
        simp only [step, Walk.skip, hin, if_true]
        split <;> simp [Walk.inEntry]
  | path => exact .inl ⟨rfl, rfl, fun _ => rfl⟩
  | total => cases mayRead <;> exact .inl ⟨rfl, rfl, fun _ => rfl⟩
  | read room =>
    cases mayRead with
    | false => exact .inl ⟨rfl, rfl, fun _ => rfl⟩
    | true =>
      cases position with
      | none => exact .inl ⟨rfl, rfl, List.append_nil⟩
      | some p =>
        cases hin : p.inEntry with
        | false =>
          refine .inl ?_
          simp [step, Walk.read, hin, WalkReply.feature?, WalkReply.servedBehind]
        | true =>
          cases hread : p.unread.read room with
          | ended => exact .inr (.inl (by simp [step, Walk.read, hin, hread, Walk.inEntry]))
          | piece bytes rest =>
            refine .inr (.inr (.inr (.inl ⟨p, bytes, rest, room, rfl, hin, hread, ?_, ?_⟩))) <;>
              simp [step, Walk.read, hin, hread]
          | failed reason rest =>
            refine .inr (.inr (.inr (.inr ⟨p, reason, rest, room, rfl, hin, hread, ?_, ?_⟩))) <;>
              simp [step, Walk.read, hin, hread]

/-- An answer that yields nothing was given in the entry that the walk is in afterwards. -/
theorem current?_of_step {op : WalkOp} {e : Entry} (hyields : (s.step lib op).1.feature? = none)
    (he : (s.step lib op).2.walk.current? = some e) : s.walk.current? = some e := by
  obtain ⟨p, hp, hin, hcurrent⟩ := Walk.current?_eq_some.1 he
  rcases position_cases lib s op with
    ⟨hsame, -, -⟩ | hout | ⟨-, -, f, -, -, -, -, hreply, -⟩ | ⟨q, -, rest, -, hq, -, -, -, hleft⟩ |
    ⟨q, -, rest, -, hq, -, -, -, hleft⟩
  · exact Walk.current?_eq_some.2 ⟨p, hsame.symm.trans hp, hin, hcurrent⟩
  · simp [Walk.inEntry, hp, hin] at hout
  · simp [hreply, WalkReply.feature?] at hyields
  all_goals
    obtain rfl := Option.some.inj (hleft.symm.trans hp)
    exact Walk.current?_eq_some.2 ⟨q, hq, hin, hcurrent⟩

/-- The right to read is kept. -/
theorem mayRead_step (op : WalkOp) (h : s.mayRead = true) :
    (s.step lib op).2.mayRead = true := by
  cases op <;> simp [step, h]

/-! ## Runs -/

/-- What a run has to do with an entry that it is in, at the place `p`: the entry was yielded last,
and readings of it gave what was served and led to what is left. -/
structure Serving (lib : Library) (ops : List WalkOp) (p : Position) (e : Entry) : Prop where
  current : p.current = some e
  mem : e ∈ (opened? lib ops).getD []
  last : (yields lib ops).getLast? = some e.feature
  stream : e.stream.LeadsTo (served lib ops) p.unread

/-- No later operation opens another archive. -/
theorem mem_opened?_concat {e : Entry} (h : e ∈ (opened? lib ops).getD []) (op : WalkOp) :
    e ∈ (opened? lib (ops ++ [op])).getD [] := by
  rw [opened?_concat]
  cases hopened : opened? lib ops with
  | none => simp [hopened] at h
  | some es => simpa [hopened] using h

/-- What lies ahead of a walk belongs to the archive that it opened. -/
theorem mem_opened?_of_upcoming {p : Position} {e : Entry}
    (hp : (after lib ops).walk.position = some p) (he : e ∈ p.upcoming) :
    e ∈ (opened? lib ops).getD [] := by
  have htracks := tracks_of_run lib ops
  rw [Walk.ahead, hp] at htracks
  cases htracks with
  | inside hopened behind =>
    obtain ⟨⟨front, rfl, -⟩, -, -⟩ := behind
    rw [hopened]
    exact List.mem_append_right _ he

/-- A run that yields nothing more serves the same entry. -/
theorem Serving.goesOn {p : Position} {e : Entry} (h : Serving lib ops p e) {op : WalkOp}
    (hyields : ((after lib ops).step lib op).1.feature? = none) {rest : Stream}
    (hstream : e.stream.LeadsTo (((after lib ops).step lib op).1.servedBehind (served lib ops))
      rest) : Serving lib (ops ++ [op]) { p with unread := rest } e where
  current := h.current
  mem := mem_opened?_concat h.mem op
  last := by rw [yields_concat, hyields, Option.toList_none, List.append_nil, h.last]
  stream := by rwa [served_concat]

/-- **A run that is in an entry serves it.** -/
theorem serving_of_run (lib : Library) (ops : List WalkOp) :
    ∀ p, (after lib ops).walk.position = some p → p.inEntry = true →
      ∃ e, Serving lib ops p e := by
  induction ops using List.reverseRecOn with
  | nil => simp [after, run, start, Walk.closed]
  | append_singleton ops op ih =>
    -- only what is yielded starts an entry anew; the rest leaves it or reads on in it
    intro p hp hin
    rw [after_concat] at hp
    rcases position_cases lib (after lib ops) op with
      ⟨hsame, hyields, hserved⟩ | hout | ⟨q, front, e, behind, seen, hq, hahead, hreply, hleft⟩ |
      ⟨q, bytes, rest, room, hq, hinq, hread, hreply, hleft⟩ |
      ⟨q, reason, rest, room, hq, hinq, hread, hreply, hleft⟩
    · obtain ⟨e, h⟩ := ih p (hsame.symm.trans hp) hin
      exact ⟨e, h.goesOn hyields (by rw [hserved]; exact h.stream)⟩
    · simp [Walk.inEntry, hp, hin] at hout
    · obtain rfl := Option.some.inj (hleft.symm.trans hp)
      refine ⟨e, rfl, mem_opened?_concat (mem_opened?_of_upcoming hq ?_) op, ?_, ?_⟩
      · rw [hahead]
        exact List.mem_append_right _ List.mem_cons_self
      · rw [yields_concat, hreply]
        exact List.getLast?_concat
      · rw [served_concat, hreply]
        exact .refl e.stream
    · obtain rfl := Option.some.inj (hleft.symm.trans hp)
      obtain ⟨e, h⟩ := ih q hq hinq
      exact ⟨e, h.goesOn (by rw [hreply]; rfl) (by rw [hreply]; exact h.stream.piece hread)⟩
    · obtain rfl := Option.some.inj (hleft.symm.trans hp)
      obtain ⟨e, h⟩ := ih q hq hinq
      exact ⟨e, h.goesOn (by rw [hreply]; rfl) (by rw [hreply]; exact h.stream.failed hread)⟩

/-- A run serves the entry that is current. -/
theorem serving_of_current? {e : Entry} (h : (after lib ops).walk.current? = some e) :
    ∃ p, (after lib ops).walk.position = some p ∧ p.inEntry = true ∧ Serving lib ops p e := by
  obtain ⟨p, hp, hin, hcurrent⟩ := Walk.current?_eq_some.1 h
  obtain ⟨e', hserving⟩ := serving_of_run lib ops p hp hin
  obtain rfl := Option.some.inj (hcurrent.symm.trans hserving.current)
  exact ⟨p, hp, hin, hserving⟩

/-- A piece of what is left of an entry is a piece of its content. If no reading of the entry loses
anything, it comes next behind what was served. -/
theorem Serving.piece {p : Position} {e : Entry} (h : Serving lib ops p e) {room : Nat}
    {bytes : Bytes} {rest : Stream} (hread : p.unread.read room = .piece bytes rest) :
    bytes ≠ [] ∧ bytes <:+: e.content ∧
      ((∀ t ∈ e.turns, t.IsLossless) → served lib ops ++ bytes <+: e.content) := by
  obtain ⟨hpending, hne⟩ := Stream.pending_of_read hread
  refine ⟨hne, ?_, fun hlossless => ?_⟩
  · obtain ⟨-, past, -, hpast, -⟩ := h.stream
    have hinfix : bytes <:+: e.stream.pending :=
      ⟨past, rest.pending, by rw [hpast, hpending, List.append_assoc]⟩
    exact hinfix.trans e.pending_stream.isInfix
  · rw [← e.turns_stream] at hlossless
    have hwhole := h.stream.pending_eq hlossless
    rw [hpending, ← List.append_assoc] at hwhole
    exact List.IsPrefix.trans ⟨_, hwhole.symm⟩ e.pending_stream

/-- What was yielded stays yielded. -/
theorem yields_isPrefix (lib : Library) (before between : List WalkOp) :
    yields lib before <+: yields lib (before ++ between) := by
  induction between using List.reverseRecOn with
  | nil => simp
  | append_singleton between op ih =>
    rw [← List.append_assoc, yields_concat]
    exact ih.trans (List.prefix_append _ _)

/-- What was yielded since ends with the entry that was yielded last. -/
theorem yields_behind {before between : List WalkOp} {f : FeatureEntry}
    (hne : yields lib (before ++ between) ≠ yields lib before)
    (hlast : (yields lib (before ++ between)).getLast? = some f) :
    ∃ more, yields lib (before ++ between) = yields lib before ++ (more ++ [f]) := by
  obtain ⟨since, hsince⟩ := yields_isPrefix lib before between
  rw [← hsince] at hne hlast ⊢
  rcases since.eq_nil_or_concat with rfl | ⟨more, g, rfl⟩
  · exact absurd (List.append_nil _) hne
  · rw [List.concat_eq_append] at hlast ⊢
    rw [← List.append_assoc, List.getLast?_concat] at hlast
    exact ⟨more, by rw [Option.some.inj hlast]⟩

/-- If nothing more was yielded in the end, nothing was on the way. -/
theorem yields_of_concat {before between : List WalkOp} {op : WalkOp}
    (h : yields lib (before ++ (between ++ [op])) = yields lib before) :
    yields lib (before ++ between) = yields lib before ∧
      ((after lib (before ++ between)).step lib op).1.feature? = none := by
  rw [← List.append_assoc, yields_concat] at h
  have hbetween := (yields_isPrefix lib before between).eq_of_length_le (by
    rw [← h, List.length_append]
    exact Nat.le_add_right _ _)
  rw [hbetween, List.append_right_eq_self, Option.toList_eq_nil_iff] at h
  exact ⟨hbetween.symm, h⟩

/-- As long as nothing more is yielded, a run is in no other entry than before. -/
theorem current?_of_run {before between : List WalkOp} {e : Entry}
    (hyields : yields lib (before ++ between) = yields lib before)
    (he : (after lib (before ++ between)).walk.current? = some e) :
    (after lib before).walk.current? = some e := by
  induction between using List.reverseRecOn with
  | nil => rwa [List.append_nil] at he
  | append_singleton between op ih =>
    obtain ⟨hbetween, hlast⟩ := yields_of_concat hyields
    rw [← List.append_assoc, after_concat] at he
    exact ih hbetween (current?_of_step hlast he)

theorem mayRead_of_run {before between : List WalkOp} (h : (after lib before).mayRead = true) :
    (after lib (before ++ between)).mayRead = true := by
  induction between using List.reverseRecOn with
  | nil => rwa [List.append_nil]
  | append_singleton between op ih =>
    rw [← List.append_assoc, after_concat]
    exact mayRead_step op ih

/-- How a reading goes on in the entry `e`, of which the bytes `front` were served: it delivers a
piece of the content, or it finishes the entry, or it fails. -/
def ReadsOn (lib : Library) (s : Session) (room : Nat) (front : Bytes) (e : Entry) : Prop :=
  ∃ left : Stream, e.stream.LeadsTo front left ∧
    match left.read room with
    | .piece bytes _ =>
      (s.step lib (.read room)).1 = .bytes (some bytes) ∧ bytes ≠ [] ∧ bytes <:+: e.content ∧
        ((∀ t ∈ e.turns, t.IsLossless) → front ++ bytes <+: e.content) ∧
        (s.step lib (.read room)).2.walk.current? = some e
    | .ended =>
      (s.step lib (.read room)).1 = .bytes (some []) ∧
        (s.step lib (.read room)).2.walk.current? = none
    | .failed _ _ =>
      (s.step lib (.read room)).1 = .bytes none ∧
        (s.step lib (.read room)).2.walk.current? = some e

/-- A run that is in an entry and has the right to read reads on in it. -/
theorem Serving.readsOn {p : Position} {e : Entry} (h : Serving lib ops p e)
    (hp : (after lib ops).walk.position = some p) (hin : p.inEntry = true)
    (hmay : (after lib ops).mayRead = true) (room : Nat) :
    ReadsOn lib (after lib ops) room (served lib ops) e := by
  refine ⟨p.unread, h.stream, ?_⟩
  cases hread : p.unread.read room with
  | failed reason rest => simp [step, hmay, Walk.read, hp, hin, hread, Walk.current?, h.current]
  | ended => simp [step, hmay, Walk.read, hp, hin, hread, Walk.current?]
  | piece bytes rest =>
    obtain ⟨hne, hinfix, hnext⟩ := h.piece hread
    refine ⟨?_, hne, hinfix, hnext, ?_⟩ <;>
      simp [step, hmay, Walk.read, hp, hin, hread, Walk.current?, h.current]

/-- Outside of an entry nothing is read. -/
theorem step_read_of_outside (h : s.walk.inEntry = false) (hmay : s.mayRead = true) (room : Nat) :
    s.step lib (.read room) = (.bytes (some []), s) := by
  obtain ⟨⟨path, _ | p⟩, mayRead⟩ := s
  · simp_all [step, Walk.read]
  · simp_all [step, Walk.read, Walk.inEntry]

/-- A run is in some entry or outside of all of them. -/
theorem inEntry_of_current?_eq_none (h : (after lib ops).walk.current? = none) :
    (after lib ops).walk.inEntry = false := by
  by_contra hin
  obtain ⟨p, hp, hinp⟩ := Walk.inEntry_eq_true.1 (Bool.not_eq_false _ ▸ hin)
  obtain ⟨e, he⟩ := serving_of_run lib ops p hp hinp
  rw [Walk.current?_eq_some.2 ⟨p, hp, hinp, he.current⟩] at h
  exact absurd h nofun

/-- **A reader serves the current entry**, which is its own just as long as no other was yielded.

Whatever is done after an entry was opened, a reading finds nothing and changes nothing while no
entry is current. As long as no other entry was yielded, the current one is the entry that the
reader was opened in, and the reading goes on in it. Once another one was yielded, the current entry
is the one that was yielded last, behind the reader's own: then it is that entry whose bytes the
reader delivers, so that they are used up, or that it marks as finished, unless the reading fails.
-/
theorem reader_serves_current (lib : Library) (before between : List WalkOp) (room : Nat)
    (hopen : ((after lib before).step lib .openEntry).1 = .done (.ok ())) :
    let ops := before ++ .openEntry :: between
    ∃ own, (after lib before).walk.current? = some own ∧
      ((after lib ops).walk.current? = none →
        (after lib ops).step lib (.read room) = (.bytes (some []), after lib ops)) ∧
      ∀ e, (after lib ops).walk.current? = some e →
        e ∈ (opened? lib ops).getD [] ∧ (yields lib ops).getLast? = some e.feature ∧
        (yields lib ops = yields lib before → e = own) ∧
        (yields lib ops ≠ yields lib before →
          ∃ more, yields lib ops = yields lib before ++ (more ++ [e.feature])) ∧
        ReadsOn lib (after lib ops) room (served lib ops) e := by
  intro ops
  have hin : (after lib before).walk.inEntry = true := by
    by_contra hout
    simp [step, Walk.openEntry, hout] at hopen
  obtain ⟨q, hq, hinq⟩ := Walk.inEntry_eq_true.1 hin
  obtain ⟨own, hown⟩ := serving_of_run lib before q hq hinq
  have hentry := Walk.current?_eq_some.2 ⟨q, hq, hinq, hown.current⟩
  have hmay : (after lib ops).mayRead = true := by
    rw [show ops = before ++ [.openEntry] ++ between from List.append_cons ..]
    refine mayRead_of_run ?_
    rw [after_concat]
    simp [step, Walk.openEntry, hin, Except.isOk, Except.toBool]
  refine ⟨own, hentry, fun hnone => ?_, fun e he => ?_⟩
  · exact step_read_of_outside (inEntry_of_current?_eq_none hnone) hmay room
  · obtain ⟨p, hp, hinp, hserving⟩ := serving_of_current? he
    refine ⟨hserving.mem, hserving.last, fun hyields => ?_, fun hyields => ?_,
      hserving.readsOn hp hinp hmay room⟩
    · exact Option.some.inj ((current?_of_run hyields he).symm.trans hentry)
    · exact yields_behind hyields hserving.last

/-- A reader that was opened in the first entry, and that one skipped after a byte of it, with a
byte read of the second: the reader delivers the rest of that entry, and would finish it next. -/
theorem reader_serves_current_second : ∃ (lib : Library) (before between : List WalkOp)
    (a b : Entry),
    ((after lib before).step lib .openEntry).1 = .done (.ok ()) ∧
      (after lib before).walk.current? = some a ∧
      (after lib (before ++ .openEntry :: between)).walk.current? = some b ∧ a ≠ b ∧
      (∃ more, yields lib (before ++ .openEntry :: between) =
        yields lib before ++ (more ++ [b.feature])) ∧
      ReadsOn lib (after lib (before ++ .openEntry :: between)) 4 (ascii "x") b ∧
      ((after lib (before ++ .openEntry :: between)).run lib [.read 4, .read 4, .read 4, .next]).1 =
        [.bytes (some (ascii "y")), .bytes (some (ascii "z")), .bytes (some []),
          .yielded (.ok none)] := by
  let file (name content : Bytes) : Entry :=
    ⟨some name, .file, none, content, List.replicate 3 (.gives 1), .ok, none, none, none⟩
  let a := file (ascii "a.jar") (ascii "abc")
  let b := file (ascii "b.jar") (ascii "xyz")
  let lib : Library := .ofTables [([], .entries [a, b])] [(ascii "f.esa", [])]
  let before : List WalkOp := [.openPath (ascii "f.esa"), .next]
  let between : List WalkOp := [.read 1, .skip, .read 1, .next, .read 1]
  have hopen : ((after lib before).step lib .openEntry).1 = .done (.ok ()) := rfl
  have hb : (after lib (before ++ .openEntry :: between)).walk.current? = some b := rfl
  obtain ⟨own, hown, -, hserves⟩ := reader_serves_current lib before between 4 hopen
  obtain ⟨-, -, -, hbehind, hreads⟩ := hserves b hb
  exact ⟨lib, before, between, a, b, hopen, rfl, hb, by decide, hbehind (by decide +kernel), hreads,
    rfl⟩

end Session

end JavaFloor
