import JavaFloor.Proofs.Collection.Complete

/-!
# Entries in another order

The entries of an archive can stand in many orders. A collection from them succeeds in all or in
none, and what it gives differs only in the order of the components, as long as the same subsystem
manifest comes first.

* `SameEntries es es'`: the two are the same entries, and their subsystem manifests stand in the
  same order.
* `Walk.perm_passes`: then a walk passes the same entries.
* `Collection.exists_collectFrom_of_sameEntries`: and a collection gives the same requirements, in
  some order, and the same subsystem manifest.
-/

namespace JavaFloor

/-- The same entries, among them the subsystem manifests in the same order. -/
structure SameEntries (es es' : List Entry) : Prop where
  perm : es.Perm es'
  subsystems : es.filter Entry.isSubsystem = es'.filter Entry.isSubsystem

namespace SameEntries

variable {es es' : List Entry}

theorem symm (h : SameEntries es es') : SameEntries es' es := ⟨h.perm.symm, h.subsystems.symm⟩

/-- The same subsystem manifest comes first. -/
theorem find?_eq (h : SameEntries es es') :
    es.find? Entry.isSubsystem = es'.find? Entry.isSubsystem := by
  rw [← List.head?_filter, ← List.head?_filter, h.subsystems]

end SameEntries

namespace Walk

variable {es es' : List Entry}

/-- A walk passes all entries but the components and the first subsystem manifest. -/
theorem perm_cons_passes {e : Entry} (h : es.find? Entry.isSubsystem = some e) :
    (es.filter fun e => !e.isComponent).Perm (e :: passes es) := by
  have hfind : (es.filter fun e => !e.isComponent).find? Entry.isSubsystem = some e := by
    rw [List.find?_filter, ← h]
    congr 1
    funext x
    cases hx : x.isSubsystem with
    | false => simp
    | true => simp [Entry.not_isComponent_of_isSubsystem hx]
  obtain ⟨hs, front, behind, heq, hfront⟩ := List.find?_eq_some_iff_append.1 hfind
  rw [passes, heq, List.eraseP_append_right _ (by simpa using hfront), List.eraseP_cons_of_pos hs]
  exact List.perm_middle

theorem passes_of_find?_eq_none (h : es.find? Entry.isSubsystem = none) :
    passes es = es.filter fun e => !e.isComponent := by
  rw [passes, List.eraseP_of_forall_not]
  exact fun e he => List.find?_eq_none.1 h e (List.mem_of_mem_filter he)

/-- **The entries that a walk passes are the same in another order.** -/
theorem perm_passes (h : SameEntries es es') : (passes es).Perm (passes es') := by
  have hothers := h.perm.filter fun e => !e.isComponent
  cases hs : es.find? Entry.isSubsystem with
  | none =>
    rw [passes_of_find?_eq_none hs, passes_of_find?_eq_none (h.find?_eq ▸ hs)]
    exact hothers
  | some e =>
    have hperm := (perm_cons_passes hs).symm.trans
      (hothers.trans (perm_cons_passes (h.find?_eq ▸ hs)))
    exact hperm.cons_inv

end Walk

namespace Collection

variable {lib lib' : Library} {options : ExtractionOptions} {scratch : Scratch}
  {path path' : Bytes} {es es' : List Entry} {c : Collected}

/-- Only the archives that byte strings are matter to the manifest of a component. -/
theorem componentManifest_congr (h : lib.decode = lib'.decode) :
    componentManifest lib options scratch = componentManifest lib' options scratch := by
  cases lib
  cases lib'
  cases h
  rfl

theorem isCollectable_of_sameEntries (hdecode : lib.decode = lib'.decode)
    (h : SameEntries es es') (hc : IsCollectable lib options scratch false es) :
    IsCollectable lib' options scratch false es' where
  free :=
    ⟨fun e he => hc.free.readable e (h.perm.mem_iff.2 he),
      fun e he => hc.free.passable e ((Walk.perm_passes h).mem_iff.2 he)⟩
  components := by
    intro e he
    rw [← componentManifest_congr hdecode]
    exact hc.components e ((h.perm.filter _).mem_iff.2 he)
  subsystem := h.find?_eq ▸ hc.subsystem

/-- **A collection from the same entries in another order** succeeds as well, and gives the same
requirements in some order and the same subsystem manifest. -/
theorem exists_collectFrom_of_sameEntries (hdecode : lib.decode = lib'.decode)
    (h : SameEntries es es')
    (hc : (collectFrom lib options .nothing (.outside path false es) scratch).1 = .ok c) :
    ∃ c', (collectFrom lib' options .nothing (.outside path' false es') scratch).1 = .ok c' ∧
      c.requirements.Perm c'.requirements ∧ c.subsystem = c'.subsystem := by
  obtain ⟨hcollectable, rfl⟩ := collectFrom_eq_ok_iff.1 hc
  refine ⟨_, collectFrom_eq_ok_iff.2 ⟨isCollectable_of_sameEntries hdecode h hcollectable, rfl⟩,
    ?_, ?_⟩
  · have hsame : componentRequirement? lib options scratch =
        componentRequirement? lib' options scratch := by
      funext e
      rw [componentRequirement?, componentRequirement?, componentManifest_congr hdecode]
    simp only [Gathered.withAll, Gathered.collected, Gathered.nothing, List.append_nil,
      List.reverse_reverse, h.find?_eq, hsame]
    exact ((h.perm.filter _).filterMap _).append_right _
  · simp only [Gathered.withAll, Gathered.collected, h.find?_eq]

end Collection

end JavaFloor
