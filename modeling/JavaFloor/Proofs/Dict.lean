import JavaFloor.Dict
import Mathlib.Data.List.Forall2
import Mathlib.Data.List.Induction
import Mathlib.Data.List.Nodup

/-!
# Dictionaries and lists of entries

A dictionary is what its look-ups say (`Dict.ext_find?`), and the look-ups in a dictionary that was
made of a list give the last value of each key (`Dict.find?_ofList`). So the entries of a
dictionary, in whatever order, make that dictionary again (`Dict.ofList_of_perm`).
-/

namespace JavaFloor

namespace Dict

variable {d d' : Dict} {k v : Bytes} {es : List (Bytes × Bytes)}

/-! ## Entries of a dictionary -/

theorem lookup_eq_some_iff (h : es.Pairwise (·.1 < ·.1)) :
    lookup k es = some v ↔ (k, v) ∈ es := by
  induction es with
  | nil => simp [lookup]
  | cons e es ih =>
    obtain ⟨he, hes⟩ := List.pairwise_cons.1 h
    rw [lookup, List.mem_cons]
    by_cases hk : k = e.1
    · rw [if_pos hk, Option.some_inj]
      constructor
      · rintro rfl
        exact .inl (Prod.ext hk rfl)
      · rintro (heq | hmem)
        · rw [← heq]
        · exact absurd (hk ▸ he (k, v) hmem) (List.lt_irrefl _)
    · rw [if_neg hk, ih hes]
      refine ⟨.inr, fun hor => hor.resolve_left ?_⟩
      rintro rfl
      exact hk rfl

theorem find?_eq_some_iff : d.find? k = some v ↔ (k, v) ∈ d.entries :=
  lookup_eq_some_iff d.sorted

theorem nodup_entries (d : Dict) : d.entries.Nodup := by
  apply d.sorted.imp
  rintro e _ hlt rfl
  exact List.lt_irrefl _ hlt

/-- Dictionaries with the same look-ups are equal. -/
theorem ext_find? (h : ∀ k, d.find? k = d'.find? k) : d = d' := by
  have hperm : d.entries.Perm d'.entries := by
    rw [List.perm_ext_iff_of_nodup d.nodup_entries d'.nodup_entries]
    rintro ⟨k, v⟩
    rw [← find?_eq_some_iff, h, find?_eq_some_iff]
  have hentries : d.entries = d'.entries :=
    hperm.eq_of_pairwise (fun e e' _ _ hlt hgt => absurd (List.lt_trans hlt hgt)
      (List.lt_irrefl _)) d.sorted d'.sorted
  cases d
  cases d'
  cases hentries
  rfl

theorem isEmpty_iff_find? : d.isEmpty = true ↔ ∀ k, d.find? k = none := by
  rw [isEmpty, List.isEmpty_iff, List.eq_nil_iff_forall_not_mem]
  constructor
  · intro h k
    rw [Option.eq_none_iff_forall_ne_some]
    exact fun v hv => h (k, v) (find?_eq_some_iff.1 hv)
  · intro h e he
    have hfound := find?_eq_some_iff.2 he
    rw [h] at hfound
    cases hfound

/-! ## Dictionaries of lists -/

/-- The value of the last entry with the key `k`. -/
def lastValue (es : List (Bytes × Bytes)) (k : Bytes) : Option Bytes :=
  ((es.filter fun e => e.1 = k).getLast?).map Prod.snd

theorem lastValue_concat (es : List (Bytes × Bytes)) (e : Bytes × Bytes) (k : Bytes) :
    lastValue (es ++ [e]) k = if e.1 = k then some e.2 else lastValue es k := by
  rw [lastValue, List.filter_append]
  by_cases h : e.1 = k
  · simp [h]
  · simp [h, lastValue]

/-- A list makes the dictionary with the last value of each key. -/
theorem find?_ofList (es : List (Bytes × Bytes)) (k : Bytes) :
    (ofList es).find? k = lastValue es k := by
  induction es using List.reverseRecOn with
  | nil => rfl
  | append_singleton es e ih =>
    rw [find?_ofList_concat, lastValue_concat, ih]
    simp only [eq_comm]

/-- A key has a value if an entry has that key. -/
theorem isSome_lastValue_iff : (lastValue es k).isSome ↔ ∃ e ∈ es, e.1 = k := by
  rw [lastValue, Option.isSome_map, List.getLast?_isSome, Ne, List.filter_eq_nil_iff]
  simp

/-- The last value of a key is a value of it. -/
theorem mem_of_lastValue_eq_some (h : lastValue es k = some v) : (k, v) ∈ es := by
  obtain ⟨e, he, rfl⟩ := Option.map_eq_some_iff.1 h
  obtain ⟨hmem, hkey⟩ := List.mem_filter.1 (List.mem_of_getLast? he)
  exact of_decide_eq_true hkey ▸ hmem

/-- The entries of a dictionary make it again, in whatever order they are put in. -/
theorem ofList_of_perm (h : es.Perm d.entries) : ofList es = d := by
  apply ext_find?
  intro k
  rw [find?_ofList]
  apply Option.ext
  intro v
  rw [find?_eq_some_iff, ← h.mem_iff]
  refine ⟨mem_of_lastValue_eq_some, fun hmem => ?_⟩
  obtain ⟨v', hv'⟩ := Option.isSome_iff_exists.1 (isSome_lastValue_iff.2 ⟨(k, v), hmem, rfl⟩)
  have hfound := find?_eq_some_iff.2 (h.mem_iff.1 hmem)
  have hfound' := find?_eq_some_iff.2 (h.mem_iff.1 (mem_of_lastValue_eq_some hv'))
  rw [hv', ← hfound', hfound]

/-! ## Dictionaries with related values -/

/-- Both dictionaries have the same keys, and under each of them values that are related. -/
def Rel (R : Bytes → Bytes → Bytes → Prop) (d d' : Dict) : Prop :=
  ∀ k, Option.Rel (R k) (d.find? k) (d'.find? k)

variable {R : Bytes → Bytes → Bytes → Prop} {v' : Bytes} {es' : List (Bytes × Bytes)}

theorem rel_empty : Rel R empty empty := fun _ => .none

theorem Rel.insert (h : Rel R d d') (hv : R k v v') : Rel R (d.insert k v) (d'.insert k v') := by
  intro key
  rw [find?_insert, find?_insert]
  split
  next hkey => exact .some (hkey ▸ hv)
  next => exact h key

/-- Entries with the same keys and related values make such dictionaries. -/
theorem Rel.ofList (h : List.Forall₂ (fun e e' => e.1 = e'.1 ∧ R e.1 e.2 e'.2) es es') :
    Rel R (.ofList es) (.ofList es') :=
  List.rel_foldl (fun _ _ hd _ _ he => he.1 ▸ hd.insert he.2) rel_empty h

end Dict

end JavaFloor
