import JavaFloor.Manifest
import JavaFloor.Proofs.Bytes
import Mathlib.Data.List.Induction

/-!
# Looking names up

The fields of a manifest are taken in one after another. A name that is new goes to the end, and one
that is known up to case keeps its place and its spelling and gets the new value.

* `put_names` and `find?_put` say what one field does to the names and to what is found.
* `Represents` relates a manifest to the fields it was made from, and `represents_ofFields` says
  that `ofFields` makes such a manifest, by induction from the last field.
-/

namespace JavaFloor

namespace Manifest

/-- What a manifest keeps of the fields it was made from. -/
structure Represents (m : Manifest) (fs : List (Bytes × Bytes)) : Prop where
  /-- Every name is kept where it occurs first, and in that spelling. -/
  names : m.attributes.map (·.1) = (fs.map (·.1)).eraseDupsBy Bytes.equalFold
  /-- No two names are the same up to case. -/
  distinct : m.attributes.Pairwise fun a b => ¬ Bytes.SameLetters a.1 b.1
  /-- Every value is that of a field. -/
  values : ∀ a ∈ m.attributes, a.2 ∈ fs.map (·.2)
  /-- What is found is the value of the last field with the name. -/
  find?_eq_some_iff : ∀ name value, m.find? name = some value ↔
    ∃ front spelling behind, fs = front ++ (spelling, value) :: behind ∧
      Bytes.SameLetters spelling name ∧ ∀ f ∈ behind, ¬ Bytes.SameLetters f.1 name
  /-- Nothing is found if no field has the name. -/
  find?_eq_none_iff : ∀ name, m.find? name = none ↔ ∀ f ∈ fs, ¬ Bytes.SameLetters f.1 name

variable {fs attributes : List (Bytes × Bytes)}

/-! ## Lists without duplicates -/

section Duplicates

variable {α : Type} {r : α → α → Bool}

theorem eraseDupsBy_loop_concat (l seen : List α) (a : α) :
    List.eraseDupsBy.loop r (l ++ [a]) seen =
      if (List.eraseDupsBy.loop r l seen).any (r a) then List.eraseDupsBy.loop r l seen
      else List.eraseDupsBy.loop r l seen ++ [a] := by
  induction l generalizing seen with
  | nil =>
    rw [List.nil_append, List.eraseDupsBy.loop, List.eraseDupsBy.loop, List.any_reverse]
    cases seen.any (r a) <;> simp [List.eraseDupsBy.loop]
  | cons b l ih =>
    rw [List.cons_append, List.eraseDupsBy.loop, List.eraseDupsBy.loop]
    cases seen.any (r b) with
    | true => exact ih seen
    | false => exact ih (b :: seen)

/-- The last member is kept if it is no duplicate. -/
theorem eraseDupsBy_concat (l : List α) (a : α) : (l ++ [a]).eraseDupsBy r =
    if (l.eraseDupsBy r).any (r a) then l.eraseDupsBy r else l.eraseDupsBy r ++ [a] :=
  eraseDupsBy_loop_concat l [] a

theorem pairwise_eraseDupsBy (l : List α) :
    (l.eraseDupsBy r).Pairwise fun a b => r b a = false := by
  induction l using List.reverseRecOn with
  | nil => exact .nil
  | append_singleton l b ih =>
    rw [eraseDupsBy_concat]
    split
    next => exact ih
    next h =>
      refine List.pairwise_append.2 ⟨ih, List.pairwise_singleton _ _, fun a ha c hc => ?_⟩
      obtain rfl := List.mem_singleton.1 hc
      exact Bool.eq_false_iff.2 fun hr => h (List.any_eq_true.2 ⟨a, ha, hr⟩)

end Duplicates

/-! ## Taking a field in -/

/-- A new name goes to the end. -/
theorem put_names (name value : Bytes) (attributes : List (Bytes × Bytes)) :
    (put name value attributes).map (·.1) =
      if (attributes.map (·.1)).any (Bytes.equalFold name) then attributes.map (·.1)
      else attributes.map (·.1) ++ [name] := by
  induction attributes with
  | nil => rfl
  | cons a rest ih =>
    rw [put, List.map_cons, List.any_cons, Bytes.equalFold_comm name a.1]
    cases Bytes.equalFold a.1 name with
    | true => simp
    | false =>
      rw [if_neg Bool.false_ne_true, List.map_cons, ih, Bool.false_or, List.cons_append]
      exact apply_ite (a.1 :: ·) _ _ _

theorem mem_put {name value : Bytes} {a : Bytes × Bytes} (h : a ∈ put name value attributes) :
    a ∈ attributes ∨ a.2 = value := by
  induction attributes with
  | nil => exact .inr (congrArg Prod.snd (List.mem_singleton.1 h))
  | cons b rest ih =>
    rw [put] at h
    split at h
    next =>
      rcases List.mem_cons.1 h with rfl | h
      · exact .inr rfl
      · exact .inl (List.mem_cons_of_mem _ h)
    next =>
      rcases List.mem_cons.1 h with rfl | h
      · exact .inl List.mem_cons_self
      · exact (ih h).imp_left (List.mem_cons_of_mem _)

/-- The new value is found under its name, and nothing changes for other names. -/
theorem find?_put (name value sought : Bytes) (attributes : List (Bytes × Bytes)) :
    find? ⟨put name value attributes⟩ sought =
      if Bytes.equalFold name sought then some value else find? ⟨attributes⟩ sought := by
  induction attributes with
  | nil => cases h : Bytes.equalFold name sought <;> simp [find?, put, h]
  | cons a rest ih =>
    rw [put]
    cases ha : Bytes.equalFold a.1 name with
    | true =>
      have hcongr := Bytes.equalFold_congr ha sought
      cases h : Bytes.equalFold name sought <;> simp [find?, hcongr, h]
    | false =>
      simp only [find?, List.find?_cons] at ih ⊢
      cases hsought : Bytes.equalFold a.1 sought with
      | false => simpa [hsought] using ih
      | true =>
        -- the name sought is that of `a`, so it is another one than `name`
        have hname : Bytes.equalFold name sought = false := by
          rw [← Bool.not_eq_true]
          intro h
          rw [Bytes.equalFold_congr hsought, Bytes.equalFold_comm, h] at ha
          cases ha
        simp [hsought, hname]

/-! ## Taking all fields in -/

theorem ofFields_concat (fs : List (Bytes × Bytes)) (f : Bytes × Bytes) :
    ofFields (fs ++ [f]) = ⟨put f.1 f.2 (ofFields fs).attributes⟩ := by
  rw [ofFields, List.foldl_append, List.foldl_cons, List.foldl_nil, ofFields]

theorem names_ofFields (fs : List (Bytes × Bytes)) :
    (ofFields fs).attributes.map (·.1) = (fs.map (·.1)).eraseDupsBy Bytes.equalFold := by
  induction fs using List.reverseRecOn with
  | nil => rfl
  | append_singleton fs f ih =>
    rw [ofFields_concat, put_names, ih, List.map_append, List.map_singleton, eraseDupsBy_concat]

/-- The last field of a name is the one that is found. -/
theorem find?_ofFields (fs : List (Bytes × Bytes)) (name : Bytes) :
    (ofFields fs).find? name =
      (fs.reverse.find? fun f => Bytes.equalFold f.1 name).map (·.2) := by
  induction fs using List.reverseRecOn with
  | nil => rfl
  | append_singleton fs f ih =>
    rw [ofFields_concat, find?_put, ih, List.reverse_concat, List.find?_cons]
    cases Bytes.equalFold f.1 name <;> rfl

/-- **A manifest keeps the last value of every name**, in the place and the spelling in which the
name occurs first. -/
theorem represents_ofFields (fs : List (Bytes × Bytes)) : (ofFields fs).Represents fs where
  names := names_ofFields fs
  distinct := by
    have h := pairwise_eraseDupsBy (r := Bytes.equalFold) (fs.map (·.1))
    rw [← names_ofFields, List.pairwise_map] at h
    refine h.imp fun {a b} hab hsame => ?_
    rw [Bytes.equalFold_comm, Bytes.equalFold_iff.2 hsame] at hab
    cases hab
  values := by
    induction fs using List.reverseRecOn with
    | nil => exact fun a ha => absurd ha List.not_mem_nil
    | append_singleton fs f ih =>
      intro a ha
      rw [ofFields_concat] at ha
      rw [List.map_append, List.mem_append]
      exact (mem_put ha).imp (ih a) fun h => List.mem_singleton.2 h
  find?_eq_some_iff := by
    intro name value
    rw [find?_ofFields, Option.map_eq_some_iff]
    constructor
    · rintro ⟨f, hf, rfl⟩
      obtain ⟨hname, behind, front, hfs, hbehind⟩ := List.find?_eq_some_iff_append.1 hf
      rw [List.reverse_eq_iff, List.reverse_append, List.reverse_cons, List.append_assoc] at hfs
      refine ⟨front.reverse, f.1, behind.reverse, hfs, Bytes.equalFold_iff.1 hname, ?_⟩
      intro g hg hsame
      have hother := hbehind g (List.mem_reverse.1 hg)
      rw [Bytes.equalFold_iff.2 hsame] at hother
      cases hother
    · rintro ⟨front, spelling, behind, rfl, hname, hbehind⟩
      refine ⟨(spelling, value), List.find?_eq_some_iff_append.2 ⟨Bytes.equalFold_iff.2 hname,
        behind.reverse, front.reverse, by simp, fun g hg => ?_⟩, rfl⟩
      have hother := mt Bytes.equalFold_iff.1 (hbehind g (List.mem_reverse.1 hg))
      simpa using hother
  find?_eq_none_iff := by
    intro name
    rw [find?_ofFields, Option.map_eq_none_iff, List.find?_eq_none]
    simp only [List.mem_reverse, Bytes.equalFold_iff]

end Manifest

end JavaFloor
