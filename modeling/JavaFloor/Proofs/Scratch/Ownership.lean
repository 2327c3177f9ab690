import JavaFloor.Proofs.Scratch.Fresh
import JavaFloor.Proofs.Scratch.History
import JavaFloor.Proofs.Slots
import Mathlib.Data.List.Nodup

/-!
# Who owns a temporary file

Temporary files go from object to object: a file is made in the place of another one, written to,
closed, moved on, or given up. Here a bank is compared with the log of what happened to its files.

* `Owned` relates a bank to a log: every file made has just one owner, and both agree on it. The
  lemmas `Owned.give_up`, `Owned.put`, `Owned.pass`, `Owned.append` and `Owned.close` say that the
  five things that can happen to files keep it so, and `Owned.step` that every operation does, as
  long as no write fails.
* `TempBank.step_create_of_ok`, `TempBank.step_move`, `TempBank.step_drop` and the like say what one
  operation does to the objects.
* `TempBank.ownership_of_run` puts this together for a whole run.
-/

namespace JavaFloor

/-! ## Owners -/

/-- Besides the files `before` that were there in the beginning, there are the files `own`. Each of
them has one owner in a slot of the bank, and bank and log agree on its content and on whether it
can be written to. -/
structure Owned (before own : List (Bytes × Bytes)) (b : TempBank) (log : FileLog) : Prop where
  files : b.scratch.files = before ++ own
  nodup : (own.map Prod.fst).Nodup
  made : ∀ f ∈ own, (f.1, .made) ∈ log
  new : ∀ path, (path, .made) ∈ log → path ∉ before.map Prod.fst
  content : ∀ f ∈ own, f.2 = log.content f.1
  owner : ∀ path, path ∈ own.map Prod.fst ↔ ∃ slot, (b.slots slot).path = some path
  unique : ∀ slot slot' path, (b.slots slot).path = some path → (b.slots slot').path = some path →
    slot = slot'
  writable : ∀ slot, (b.slots slot).writable = true ↔
    ∃ path, (b.slots slot).path = some path ∧ log.IsOpen path

namespace Owned

variable {before own : List (Bytes × Bytes)} {b : TempBank} {log : FileLog} {slot other : Bytes}

theorem start (scratch : Scratch) : Owned scratch.files [] (.start scratch) [] where
  files := (List.append_nil _).symm
  nodup := List.nodup_nil
  made := nofun
  new := nofun
  content := nofun
  owner := by simp [TempBank.start, TempFile.none]
  unique := by simp [TempBank.start, TempFile.none]
  writable := by simp [TempBank.start, TempFile.none]

/-- A slot without a file is empty. -/
theorem eq_none (h : Owned before own b log) (hpath : (b.slots slot).path = none) :
    b.slots slot = .none := by
  have hwritable : (b.slots slot).writable = false := by
    simpa [hpath] using h.writable slot
  rcases ht : b.slots slot with ⟨path, writable⟩
  rw [ht] at hpath hwritable
  rw [TempFile.none]
  congr

/-- No object owns a file that was there before. -/
theorem notMem_before (h : Owned before own b log) {path : Bytes}
    (hslot : (b.slots slot).path = some path) : path ∉ before.map Prod.fst := by
  obtain ⟨f, hf, rfl⟩ := List.mem_map.1 ((h.owner path).2 ⟨slot, hslot⟩)
  exact h.new _ (h.made f hf)

/-- The file of a slot is given up. -/
theorem give_up (h : Owned before own b log) (slot : Bytes) :
    Owned before (own.filter fun f => some f.1 != (b.slots slot).path) (b.replace slot .none)
      log where
  files := by
    have hkept : before.filter (fun f => some f.1 != (b.slots slot).path) = before := by
      refine List.filter_eq_self.2 fun f hf => bne_iff_ne.2 fun hpath => ?_
      exact h.notMem_before hpath.symm (List.mem_map_of_mem hf)
    rw [TempBank.replace, TempFile.files_release, h.files, List.filter_append, hkept]
  nodup := (List.filter_sublist.map _).nodup h.nodup
  made f hf := h.made f (List.mem_of_mem_filter hf)
  new := h.new
  content f hf := h.content f (List.mem_of_mem_filter hf)
  owner path := by
    have hmem : path ∈ (own.filter fun f => some f.1 != (b.slots slot).path).map Prod.fst ↔
        path ∈ own.map Prod.fst ∧ (b.slots slot).path ≠ some path := by
      simp only [List.mem_map, List.mem_filter, bne_iff_ne]
      constructor
      · rintro ⟨f, ⟨hf, hne⟩, rfl⟩
        exact ⟨⟨f, hf, rfl⟩, hne.symm⟩
      · rintro ⟨⟨f, hf, rfl⟩, hne⟩
        exact ⟨f, ⟨hf, hne.symm⟩, rfl⟩
    rw [hmem, h.owner]
    constructor
    · rintro ⟨⟨n, hn⟩, hne⟩
      have hslot : n ≠ slot := by
        rintro rfl
        exact hne hn
      exact ⟨n, by simpa [hslot] using hn⟩
    · rintro ⟨n, hn⟩
      by_cases hslot : n = slot
      · simp [hslot, TempFile.none] at hn
      · replace hn : (b.slots n).path = some path := by simpa [hslot] using hn
        exact ⟨⟨n, hn⟩, fun heq => hslot (h.unique _ _ _ hn heq)⟩
  unique n n' path hn hn' := by
    by_cases hslot : n = slot
    · simp [hslot, TempFile.none] at hn
    · by_cases hslot' : n' = slot
      · simp [hslot', TempFile.none] at hn'
      · exact h.unique n n' path (by simpa [hslot] using hn) (by simpa [hslot'] using hn')
  writable n := by
    by_cases hslot : n = slot
    · simp [hslot, TempFile.none]
    · simpa [hslot] using h.writable n

/-- No object owns a file that is still to be made. -/
theorem path_ne_of_new (h : Owned before own b log) {path : Bytes}
    (hnew : ∀ f ∈ b.scratch.files, f.1 ≠ path) :
    path ∉ own.map Prod.fst ∧ ∀ slot, (b.slots slot).path ≠ some path := by
  have hown : path ∉ own.map Prod.fst := by
    intro hmem
    obtain ⟨f, hf, heq⟩ := List.mem_map.1 hmem
    exact hnew f (by simp [h.files, hf]) heq
  exact ⟨hown, fun slot hslot => hown ((h.owner path).2 ⟨slot, hslot⟩)⟩

/-- A new file is put into an empty slot. -/
theorem put (h : Owned before own b log) {path : Bytes} (hslot : b.slots slot = .none)
    (hnew : ∀ f ∈ b.scratch.files, f.1 ≠ path) :
    Owned before (own ++ [(path, [])])
      ⟨b.scratch.add path, b.slots.set slot ⟨some path, true⟩⟩ ((path, .made) :: log) where
  files := by simp [Scratch.add, h.files]
  nodup := by
    rw [List.map_append, List.map_singleton, List.nodup_append_comm]
    exact List.nodup_cons.2 ⟨(h.path_ne_of_new hnew).1, h.nodup⟩
  made f hf := by
    rcases List.mem_append.1 hf with hf | hf
    · exact List.mem_cons_of_mem _ (h.made f hf)
    · simp [List.mem_singleton.1 hf]
  new other hother := by
    rcases List.mem_cons.1 hother with heq | hother
    · obtain ⟨rfl, -⟩ := Prod.mk.inj heq
      intro hmem
      obtain ⟨g, hg, hpath⟩ := List.mem_map.1 hmem
      exact hnew g (by simp [h.files, hg]) hpath
    · exact h.new other hother
  content f hf := by
    rcases List.mem_append.1 hf with hf | hf
    · have hne : path ≠ f.1 := (hnew f (by simp [h.files, hf])).symm
      simpa [hne] using h.content f hf
    · simp [List.mem_singleton.1 hf]
  owner other := by
    rw [List.map_append, List.mem_append, h.owner]
    constructor
    · rintro (⟨n, hn⟩ | hother)
      · have hne : n ≠ slot := by
          rintro rfl
          simp [hslot, TempFile.none] at hn
        exact ⟨n, by simpa [hne] using hn⟩
      · exact ⟨slot, by simpa using (List.mem_singleton.1 hother).symm⟩
    · rintro ⟨n, hn⟩
      by_cases hne : n = slot
      · exact .inr (by simpa [hne, eq_comm] using hn)
      · exact .inl ⟨n, by simpa [hne] using hn⟩
  unique n n' other hn hn' := by
    have hold := (h.path_ne_of_new hnew).2
    by_cases hne : n = slot
    · by_cases hne' : n' = slot
      · rw [hne, hne']
      · obtain rfl : path = other := by simpa [hne] using hn
        exact absurd (by simpa [hne'] using hn') (hold n')
    · by_cases hne' : n' = slot
      · obtain rfl : path = other := by simpa [hne'] using hn'
        exact absurd (by simpa [hne] using hn) (hold n)
      · exact h.unique n n' other (by simpa [hne] using hn) (by simpa [hne'] using hn')
  writable n := by
    by_cases hne : n = slot
    · simp [hne, FileLog.isOpen_made]
    · simp only [ne_eq, hne, not_false_eq_true, Slots.set_of_ne, h.writable n]
      refine exists_congr fun other => and_congr_right fun hn => ?_
      refine (FileLog.isOpen_cons_of_ne ?_).symm
      rintro rfl
      exact (h.path_ne_of_new hnew).2 n hn

/-- It does not matter under which names the objects stand. -/
theorem rename (h : Owned before own b log) (σ : Equiv.Perm Bytes) :
    Owned before own { b with slots := b.slots ∘ σ } log where
  files := h.files
  nodup := h.nodup
  made := h.made
  new := h.new
  content := h.content
  owner path := by
    rw [h.owner]
    exact σ.surjective.exists
  unique n n' path hn hn' := σ.injective (h.unique _ _ path hn hn')
  writable n := h.writable (σ n)

/-- A file is passed on to an empty slot: the two objects change places. -/
theorem pass (h : Owned before own b log) (hslot : b.slots slot = .none) (hne : other ≠ slot) :
    Owned before own
      { b with slots := (b.slots.set other .none).set slot (b.slots other) } log := by
  rw [Slots.set_set_eq_swap hslot hne]
  exact h.rename (Equiv.swap slot other)

/-- What is appended to the file of a slot is written to its end. -/
theorem append (h : Owned before own b log) {path : Bytes} (hslot : (b.slots slot).path = some path)
    (data : Bytes) :
    Owned before (own.map fun f => if f.1 = path then (f.1, f.2 ++ data) else f)
      { b with scratch := (b.slots slot).append data b.scratch } ((path, .wrote data) :: log) where
  files := by
    have hkept : before.map (fun f => if f.1 = path then (f.1, f.2 ++ data) else f) = before := by
      refine (List.map_congr_left fun f hf => if_neg ?_).trans (List.map_id before)
      rintro rfl
      exact h.notMem_before hslot (List.mem_map_of_mem hf)
    simp [TempFile.files_append, h.files, hslot, hkept]
  nodup := by simpa [Function.comp_def, apply_ite] using h.nodup
  made f hf := by
    obtain ⟨g, hg, rfl⟩ := List.mem_map.1 hf
    simpa [apply_ite] using h.made g hg
  new other hother := h.new other (by simpa using hother)
  content f hf := by
    obtain ⟨g, hg, rfl⟩ := List.mem_map.1 hf
    split
    next heq => simp [heq, h.content g hg]
    next hne => simp [Ne.symm hne, h.content g hg]
  owner other := by
    rw [← h.owner other]
    simp [Function.comp_def, apply_ite]
  unique := h.unique
  writable n := by simp only [FileLog.isOpen_wrote, h.writable n]

/-- The file of a slot is closed. -/
theorem close (h : Owned before own b log) {path : Bytes}
    (hslot : (b.slots slot).path = some path) :
    Owned before own { b with slots := b.slots.set slot { b.slots slot with writable := false } }
      ((path, .closed) :: log) := by
  have hpath : ∀ n, (b.slots.set slot { b.slots slot with writable := false } n).path =
      (b.slots n).path := by
    intro n
    by_cases hn : n = slot
    · simp [hn]
    · simp [hn]
  refine ⟨h.files, h.nodup, fun f hf => List.mem_cons_of_mem _ (h.made f hf),
    fun other hother => h.new other (by simpa using hother), fun f hf => ?_, fun other => ?_,
    fun n n' other => ?_, fun n => ?_⟩
  · by_cases hne : path = f.1
    · simp [hne, h.content f hf]
    · simp [hne, h.content f hf]
  · simp only [hpath, h.owner]
  · simpa only [hpath] using h.unique n n' other
  · by_cases hn : n = slot
    · simp [hn, hslot, FileLog.not_isOpen_closed]
    · have hne : ∀ other, (b.slots n).path = some other → path ≠ other := by
        rintro other hother rfl
        exact hn (h.unique _ _ _ hother hslot)
      simp only [ne_eq, hn, not_false_eq_true, Slots.set_of_ne, h.writable n]
      exact exists_congr fun other => and_congr_right fun hother =>
        (FileLog.isOpen_cons_of_ne (hne other hother)).symm

/-- A file that is moved to a slot is passed on after the slot has given up its own one. -/
theorem move (h : Owned before own b log) (hne : other ≠ slot) :
    ∃ own', Owned before own'
      (TempBank.replace { b with slots := b.slots.set other .none } slot (b.slots other)) log := by
  have hbank : TempBank.replace { b with slots := b.slots.set other .none } slot (b.slots other) =
      { b.replace slot .none with
        slots := ((b.replace slot .none).slots.set other .none).set slot
          ((b.replace slot .none).slots other) } := by
    simp [TempBank.replace, hne, hne.symm, Slots.set_comm _ hne]
  rw [hbank]
  exact ⟨_, (h.give_up slot).pass (by simp) hne⟩

/-- A file that is made in a slot is put there after the slot has given up its own one. -/
theorem make (h : Owned before own b log) (slot : Bytes) {path : Bytes}
    (hnew : ∀ f ∈ b.scratch.files, f.1 ≠ path) :
    ∃ own', Owned before own'
      ⟨(b.slots slot).release (b.scratch.add path), b.slots.set slot ⟨some path, true⟩⟩
      ((path, .made) :: log) := by
  have hbank : (⟨(b.slots slot).release (b.scratch.add path),
        b.slots.set slot ⟨some path, true⟩⟩ : TempBank) =
      ⟨(b.replace slot .none).scratch.add path,
        (b.replace slot .none).slots.set slot ⟨some path, true⟩⟩ := by
    simp [TempBank.replace, TempFile.release_add ((h.path_ne_of_new hnew).2 slot)]
  rw [hbank]
  refine ⟨_, (h.give_up slot).put (by simp) fun f hf => ?_⟩
  rw [TempBank.replace, TempFile.files_release] at hf
  exact hnew f (List.mem_of_mem_filter hf)

/-- **Every operation keeps bank and log in agreement.** -/
theorem step (h : Owned before own b log) (hworks : b.scratch.device.Works) (slot : Bytes)
    (op : TempOp) :
    ∃ own', Owned before own' (b.step slot op).2 ((b.event? slot op).toList ++ log) := by
  cases op with
  | create directory name =>
    cases hpath : b.scratch.newPath directory name with
    | error fault =>
      refine ⟨own, ?_⟩
      simpa [TempBank.step, TempBank.event?, TempFile.create, hpath] using h
    | ok path =>
      simpa [TempBank.step, TempBank.event?, TempFile.create, hpath] using
        h.make slot (Scratch.ne_of_newPath hpath)
  | write data =>
    cases hw : (b.slots slot).writable with
    | false =>
      refine ⟨own, ?_⟩
      simpa [TempBank.step, TempBank.event?, TempFile.write, hw] using h
    | true =>
      obtain ⟨path, hslot, -⟩ := (h.writable slot).1 hw
      have happend := h.append hslot data
      have hwrite := TempFile.write_of_works hworks hw data
      exact ⟨_, by simpa [TempBank.step, TempBank.event?, hwrite, hslot] using happend⟩
  | copy source limit =>
    cases hslot : (b.slots slot).path with
    | none =>
      refine ⟨own, ?_⟩
      simpa [TempBank.step, TempBank.event?, TempFile.copyFrom, TempFile.append, hslot] using h
    | some path =>
      have happend := h.append hslot ((b.slots slot).copyFrom limit source b.scratch).1.written
      exact ⟨_, by simpa [TempBank.step, TempBank.event?, TempFile.copyFrom, hslot] using happend⟩
  | close =>
    cases hslot : (b.slots slot).path with
    | none =>
      refine ⟨own, ?_⟩
      have hclosed : (⟨none, false⟩ : TempFile) = b.slots slot := (h.eq_none hslot).symm
      simpa [TempBank.step, TempBank.event?, TempFile.close_snd, hslot, hclosed] using h
    | some path =>
      refine ⟨own, ?_⟩
      simpa [TempBank.step, TempBank.event?, TempFile.close_snd, hslot] using h.close hslot
  | move other =>
    by_cases hne : other = slot
    · refine ⟨own, ?_⟩
      simpa [TempBank.step, TempBank.event?, hne] using h
    · simpa [TempBank.step, TempBank.event?, hne, TempBank.take] using h.move hne
  | construct other =>
    by_cases hne : other = slot
    · refine ⟨own, ?_⟩
      simpa [TempBank.step, TempBank.event?, hne, TempBank.take, TempBank.replace,
        TempFile.release, TempFile.none] using h
    · simpa [TempBank.step, TempBank.event?, TempBank.take] using h.move hne
  | drop => exact ⟨_, by simpa [TempBank.step, TempBank.event?] using h.give_up slot⟩

/-- The files on disk that were made are those that objects own. -/
theorem exists_iff (h : Owned before own b log) (path : Bytes) :
    ((path, .made) ∈ log ∧ b.scratch.exists? path = true) ↔
      ∃ slot, (b.slots slot).path = some path := by
  rw [← h.owner path, Scratch.exists?, h.files]
  simp only [List.any_eq_true, beq_iff_eq, List.mem_append, List.mem_map]
  constructor
  · rintro ⟨hmade, f, hf | hf, rfl⟩
    · exact absurd (List.mem_map_of_mem hf) (h.new f.1 hmade)
    · exact ⟨f, hf, rfl⟩
  · rintro ⟨f, hf, rfl⟩
    exact ⟨h.made f hf, f, .inr hf, rfl⟩

/-- The file of an object holds what was written to it. -/
theorem contents?_eq (h : Owned before own b log) {path : Bytes}
    (hslot : (b.slots slot).path = some path) :
    b.scratch.contents? path = some (log.content path) := by
  obtain ⟨f, hf, rfl⟩ := List.mem_map.1 ((h.owner path).2 ⟨slot, hslot⟩)
  have hfound : (b.scratch.files.find? (·.1 == f.1)).isSome :=
    List.find?_isSome.2 ⟨f, by simp [h.files, hf], beq_self_eq_true f.1⟩
  obtain ⟨g, hg⟩ := Option.isSome_iff_exists.1 hfound
  have hpath : g.1 = f.1 := by simpa using List.find?_some hg
  have hown : g ∈ own := by
    have hg := List.mem_of_find?_eq_some hg
    rw [h.files] at hg
    refine (List.mem_append.1 hg).resolve_left fun hbefore => ?_
    exact h.notMem_before hslot (hpath ▸ List.mem_map_of_mem hbefore)
  rw [Scratch.contents?, hg, Option.map_some, h.content g hown, hpath]

end Owned

namespace TempBank

variable {b : TempBank} {slot other : Bytes}

/-- No operation changes what the files are on. -/
theorem device_step (b : TempBank) (slot : Bytes) (op : TempOp) :
    (b.step slot op).2.scratch.device = b.scratch.device := by
  cases op with
  | create directory name =>
    cases hpath : b.scratch.newPath directory name with
    | error fault => simp [step, TempFile.create, hpath]
    | ok path => simp [step, TempFile.create, hpath, Scratch.add]
  | write data =>
    cases hw : (b.slots slot).writable <;> simp [step, TempFile.write, hw]
  | copy source limit => simp [step, TempFile.copyFrom]
  | close => rfl
  | move other =>
    by_cases hne : other = slot <;> simp [step, take, replace, hne]
  | construct other => simp [step, take, replace]
  | drop => simp [step, replace]

/-- Every run on a device that works keeps bank and log in agreement. -/
theorem owned_of_run {scratch : Scratch} (hworks : scratch.device.Works)
    (ops : List (Bytes × TempOp)) :
    ((start scratch).after ops).scratch.device = scratch.device ∧
      ∃ own, Owned scratch.files own ((start scratch).after ops) ((start scratch).log ops) := by
  induction ops using List.reverseRecOn with
  | nil => exact ⟨rfl, [], .start scratch⟩
  | append_singleton ops o ih =>
    obtain ⟨hdevice, own, h⟩ := ih
    rw [after_concat, log_concat]
    exact ⟨(device_step _ _ _).trans hdevice, h.step (hdevice ▸ hworks) o.1 o.2⟩

/-! ## Single operations -/

/-- An object accepts what is written to it if its file is open. -/
theorem step_write_iff (hworks : b.scratch.device.Works) (slot data : Bytes) :
    (b.step slot (.write data)).1 = .done (.ok ()) ↔ (b.slots slot).writable = true := by
  cases h : (b.slots slot).writable with
  | false => simp [step, TempFile.write, h]
  | true => simp [step, TempFile.write_of_works hworks h data]

/-- A copy writes the first bytes that its source delivers, and all of them if it succeeds. -/
theorem step_copy {source : Stream} {limit : UInt64} {copy : TempFile.Copy}
    (h : (b.step slot (.copy source limit)).1 = .copied copy) :
    copy.written <+: source.delivery.bytes ∧
      (copy.error = none → copy.written = source.delivery.bytes ∧
        source.delivery.ending = .finished ∧ copy.copied = UInt64.ofNat copy.written.length) := by
  obtain rfl : ((b.slots slot).copyFrom limit source b.scratch).1 = copy := by
    simpa [step] using h
  obtain ⟨taken, hwritten, htaken, -, -⟩ :=
    (b.slots slot).copyOn_written b.scratch.device limit ((b.slots slot).size b.scratch) 0 [] source
  refine ⟨hwritten ▸ htaken, fun hnone => ?_⟩
  obtain ⟨hending, hcopy⟩ := TempFile.copyOn_of_ok hnone
  rw [TempFile.copyFrom, hcopy]
  exact ⟨rfl, hending, UInt64.zero_add _⟩

/-- A file that is made is a new one, which can be written to, and the one before it is gone. -/
theorem step_create_of_ok {directory name : Bytes}
    (h : (b.step slot (.create directory name)).1 = .done (.ok ())) :
    ∃ path, b.scratch.exists? path = false ∧
      (b.step slot (.create directory name)).2.slots slot = ⟨some path, true⟩ ∧
      ∀ old, (b.slots slot).path = some old →
        (b.step slot (.create directory name)).2.scratch.exists? old = false := by
  cases hpath : b.scratch.newPath directory name with
  | error fault => simp [step, TempFile.create, hpath] at h
  | ok path =>
    refine ⟨path, ?_, by simp [step, TempFile.create, hpath], fun old hold => ?_⟩
    · rw [Scratch.exists?, List.any_eq_false]
      intro f hf
      simpa using Scratch.ne_of_newPath hpath f hf
    · simpa [step, TempFile.create, hpath] using TempFile.exists?_release hold _

/-- Nothing is changed by a file that cannot be made. -/
theorem step_create_of_error {directory name : Bytes} {e : TempFileError}
    (h : (b.step slot (.create directory name)).1 = .done (.error e)) :
    (b.step slot (.create directory name)).2 = b := by
  cases hpath : b.scratch.newPath directory name with
  | error fault => simp [step, TempFile.create, hpath]
  | ok path => simp [step, TempFile.create, hpath] at h

/-- What a move does: the object moved from is empty, the other one is what it was, and the file
that this one had is gone. -/
theorem step_move {op : TempOp} (hne : other ≠ slot)
    (hop : op = .move other ∨ op = .construct other) :
    (b.step slot op).2.slots other = .none ∧ (b.step slot op).2.slots slot = b.slots other ∧
      ∀ path, (b.slots slot).path = some path →
        (b.step slot op).2.scratch.exists? path = false := by
  have hgone : ∀ path, (b.slots slot).path = some path →
      ((b.slots slot).release b.scratch).exists? path = false :=
    fun path hpath => TempFile.exists?_release hpath b.scratch
  rcases hop with rfl | rfl <;> simpa [step, take, replace, hne, hne.symm] using hgone

/-- Nothing is changed by a move of an object into itself. -/
theorem step_move_self {op : TempOp} (hop : op = .move slot ∨ op = .construct slot) :
    (b.step slot op).2 = b := by
  rcases hop with rfl | rfl <;> simp [step, take, replace, TempFile.release, TempFile.none]

/-- A file that is closed stays where it is. -/
theorem step_close (b : TempBank) (slot : Bytes) :
    (b.step slot .close).2.slots slot = ⟨(b.slots slot).path, false⟩ ∧
      (b.step slot .close).2.scratch = b.scratch := by
  simp [step, TempFile.close_snd]

/-- An object that is dropped is empty, and its file is gone. -/
theorem step_drop (b : TempBank) (slot : Bytes) :
    (b.step slot .drop).2.slots slot = .none ∧
      ∀ path, (b.slots slot).path = some path →
        (b.step slot .drop).2.scratch.exists? path = false :=
  ⟨by simp [step], fun _ hpath => TempFile.exists?_release hpath b.scratch⟩

/-- No other object is changed. -/
theorem step_of_ne {op : TempOp} (hne : other ≠ slot) (hmove : op ≠ .move other)
    (hconstruct : op ≠ .construct other) : (b.step slot op).2.slots other = b.slots other := by
  cases op with
  | create | write | copy | close | drop => simp [step, hne]
  | move from' =>
    have hfrom : other ≠ from' := fun h => hmove (h ▸ rfl)
    by_cases hself : from' = slot <;> simp [step, take, hne, hself, hfrom]
  | construct from' =>
    have hfrom : other ≠ from' := fun h => hconstruct (h ▸ rfl)
    simp [step, take, hne, hfrom]

/-- **Every temporary file has one owner.**

After any run of operations on a device that works, the files on disk that were made in it are
exactly those whose paths live objects have, and no two objects have the same path; the files that
were there before are as they were. The file of an object holds all that was written to it since it
was made, through whichever objects, and can be written to until it is closed.

A file that is made is a new one; a file that cannot be made changes nothing. An object that was
moved into another one is empty, and the other one is what it was; a move of an object into itself
changes nothing. A closed file stays. An object that is dropped is empty. The file that an object
had before is gone when the object is dropped or overwritten. No other object is changed. A copy
writes the first bytes that its source delivers, and all of them if it succeeds. -/
theorem ownership_of_run {scratch : Scratch} (hworks : scratch.device.Works)
    (ops : List (Bytes × TempOp)) :
    let b := (start scratch).after ops
    let log := (start scratch).log ops
    (∀ path, ((path, .made) ∈ log ∧ b.scratch.exists? path = true) ↔
      ∃ slot, (b.slots slot).path = some path) ∧
    (∀ slot slot' path, (b.slots slot).path = some path → (b.slots slot').path = some path →
      slot = slot') ∧
    (∃ own, b.scratch.files = scratch.files ++ own ∧ (own.map Prod.fst).Nodup ∧
      ∀ f ∈ own, (f.1, .made) ∈ log) ∧
    (∀ slot path, (b.slots slot).path = some path →
      b.scratch.contents? path = some (log.content path)) ∧
    (∀ slot data, (b.step slot (.write data)).1 = .done (.ok ()) ↔
      ∃ path, (b.slots slot).path = some path ∧ log.IsOpen path) ∧
    (∀ slot directory name, (b.step slot (.create directory name)).1 = .done (.ok ()) →
      ∃ path, b.scratch.exists? path = false ∧
        (b.step slot (.create directory name)).2.slots slot = ⟨some path, true⟩ ∧
        ∀ old, (b.slots slot).path = some old →
          (b.step slot (.create directory name)).2.scratch.exists? old = false) ∧
    (∀ slot directory name e, (b.step slot (.create directory name)).1 = .done (.error e) →
      (b.step slot (.create directory name)).2 = b) ∧
    (∀ slot other op, other ≠ slot → (op = .move other ∨ op = .construct other) →
      (b.step slot op).2.slots other = .none ∧ (b.step slot op).2.slots slot = b.slots other ∧
        ∀ path, (b.slots slot).path = some path →
          (b.step slot op).2.scratch.exists? path = false) ∧
    (∀ slot op, (op = .move slot ∨ op = .construct slot) → (b.step slot op).2 = b) ∧
    (∀ slot, (b.step slot .close).2.slots slot = ⟨(b.slots slot).path, false⟩ ∧
      (b.step slot .close).2.scratch = b.scratch) ∧
    (∀ slot, (b.step slot .drop).2.slots slot = .none ∧
      ∀ path, (b.slots slot).path = some path →
        (b.step slot .drop).2.scratch.exists? path = false) ∧
    (∀ slot other op, other ≠ slot → op ≠ .move other → op ≠ .construct other →
      (b.step slot op).2.slots other = b.slots other) ∧
    ∀ slot source limit copy, (b.step slot (.copy source limit)).1 = .copied copy →
      (copy.written <+: source.delivery.bytes ∧
        (copy.error = none → copy.written = source.delivery.bytes ∧
          source.delivery.ending = .finished ∧
          copy.copied = UInt64.ofNat copy.written.length)) ∧
      (source.Flows → source.delivery = ⟨source.pending, source.ending⟩) := by
  intro b log
  obtain ⟨hdevice, own, h⟩ := owned_of_run hworks ops
  have hworks : b.scratch.device.Works := hdevice ▸ hworks
  refine ⟨h.exists_iff, h.unique, ⟨own, h.files, h.nodup, h.made⟩, fun slot path => h.contents?_eq,
    fun slot data => ?_, fun slot directory name => step_create_of_ok,
    fun slot directory name e => step_create_of_error, fun slot other op => step_move,
    fun slot op => step_move_self, b.step_close, b.step_drop, fun slot other op => step_of_ne,
    fun slot source limit copy hcopy => ⟨step_copy hcopy, Stream.delivery_of_flows⟩⟩
  exact (step_write_iff hworks slot data).trans (h.writable slot)

/-- A file that is written to by two objects in turn, closed, and passed on to a third one while a
new file takes the place of another, on a device that takes two bytes at a time. -/
theorem ownership_of_run_passed_on : ∃ (scratch : Scratch) (ops : List (Bytes × TempOp))
    (path : Bytes), (((start scratch).after ops).slots (ascii "c")).path = some path ∧
      ((start scratch).after ops).scratch.contents? path = some (ascii "xyz") ∧
      (((start scratch).after ops).step (ascii "c") (.write (ascii "!"))).1 ≠ .done (.ok ()) ∧
      (((start scratch).after ops).step (ascii "c") .drop).2.scratch.exists? path = false ∧
      ((start scratch).after ops).slots (ascii "b") = .none ∧
      (((start scratch).after ops).slots (ascii "a")).path ≠ none ∧
      ((start scratch).after ops).scratch.files.length = 3 := by
  let byPairs : Device := ⟨fun _ _ => .ok 1, fun _ => true⟩
  let scratch : Scratch :=
    ⟨⟨[], [[ascii "tmp"]], []⟩, byPairs, [(ascii "/tmp/t-000000", ascii "kept")]⟩
  let make : TempOp := .create (ascii "/tmp") (ascii "t-")
  let ops : List (Bytes × TempOp) :=
    [(ascii "a", make), (ascii "a", .write (ascii "x")), (ascii "c", make),
      (ascii "b", .move (ascii "a")), (ascii "b", .copy ⟨ascii "yz", [.gives 1], .finished⟩ 2),
      (ascii "a", make), (ascii "a", make), (ascii "a", .create (ascii "/none") []),
      (ascii "b", .close), (ascii "b", .move (ascii "b")), (ascii "c", .construct (ascii "b"))]
  have hworks : scratch.device.Works := ⟨fun _ _ => ⟨1, rfl⟩, fun _ => rfl⟩
  obtain ⟨-, -, -, hcontents, hwrite, -, -, -, -, -, hdrop, -⟩ := ownership_of_run hworks ops
  have hpath : (((start scratch).after ops).slots (ascii "c")).path =
      some (ascii "/tmp/t-000001") := by decide +kernel
  refine ⟨scratch, ops, ascii "/tmp/t-000001", hpath, ?_, ?_, (hdrop _).2 _ hpath, ?_, ?_, ?_⟩
  · exact (hcontents _ _ hpath).trans (by decide +kernel)
  · rw [Ne, hwrite]
    rintro ⟨path, hslot, -, hopen⟩
    obtain rfl := Option.some.inj (hpath.symm.trans hslot)
    revert hopen
    decide +kernel
  · decide +kernel
  · decide +kernel
  · decide +kernel

end TempBank

end JavaFloor
