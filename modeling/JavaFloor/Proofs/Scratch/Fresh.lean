import JavaFloor.Scratch.Basic

/-!
# New temporary files

The path of a new temporary file is not the path of any other (`Scratch.ne_of_newPath`). So a file
that was made, written and removed leaves no trace in the scratch space
(`Scratch.remove_append_add`), and while it is there it holds what was written to it
(`Scratch.contents?_append_add`). The lemmas at the end say so of the object that owns the file.
-/

namespace JavaFloor

namespace Scratch

variable {s : Scratch} {directory name path : Bytes}

/-- No file has the path of a new one. -/
theorem ne_of_newPath (h : s.newPath directory name = .ok path) : ∀ f ∈ s.files, f.1 ≠ path := by
  rintro f hf rfl
  unfold newPath at h
  split at h
  · simp at h
  next stem _ =>
    split at h
    · simp at h
    · split at h
      next free hfree =>
        obtain rfl := Except.ok.inj h
        have hfound := List.find?_some hfree
        have hmem : s.tree.place? f.1 ∈ s.occupied :=
          List.mem_append_right _ (List.mem_map_of_mem hf)
        simp [hmem] at hfound
      · simp at h

/-- Nothing is left of a file that was made, written and removed. -/
theorem remove_append_add (h : ∀ f ∈ s.files, f.1 ≠ path) (data : Bytes) :
    ((s.add path).append path data).remove path = s := by
  have hkept : (s.files.map fun f => if f.1 = path then (f.1, f.2 ++ data) else f) = s.files := by
    refine (List.map_congr_left fun f hf => ?_).trans (List.map_id s.files)
    exact if_neg (h f hf)
  have hfilter : s.files.filter (·.1 != path) = s.files :=
    List.filter_eq_self.2 fun f hf => bne_iff_ne.2 (h f hf)
  simp [add, append, remove, hkept, hfilter]

/-- A file that was made and written holds what was written. -/
theorem contents?_append_add (h : ∀ f ∈ s.files, f.1 ≠ path) (data : Bytes) :
    ((s.add path).append path data).contents? path = some data := by
  have hother : s.files.find? (·.1 == path) = none := by
    rw [List.find?_eq_none]
    exact fun f hf => by simp [h f hf]
  have hempty : (s.add path).contents? path = some [] := by
    simp [add, contents?, List.find?_append, hother]
  rw [contents?_append, hempty]
  rfl

end Scratch

namespace TempFile

variable {s : Scratch} {directory name path : Bytes}

/-- An object that is made at a new path owns an empty file there. -/
theorem create_of_newPath (h : s.newPath directory name = .ok path) :
    create directory name none s = (.ok (), ⟨some path, true⟩, s.add path) := by
  rw [create, h]
  rfl

/-- What was written to the file of this object can be found there. -/
theorem contents_of_newPath (h : s.newPath directory name = .ok path) (data : Bytes) :
    ((some path).bind ((s.add path).append path data).contents?).getD [] = data := by
  rw [Option.bind_some, Scratch.contents?_append_add (Scratch.ne_of_newPath h), Option.getD_some]

/-- Nothing is left of this file when the object is gone, whether it was closed or not. -/
theorem release_of_newPath (h : s.newPath directory name = .ok path) (writable : Bool)
    (data : Bytes) : release ⟨some path, writable⟩ ((s.add path).append path data) = s :=
  Scratch.remove_append_add (Scratch.ne_of_newPath h) data

end TempFile

end JavaFloor
