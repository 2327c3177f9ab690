import JavaFloor.Bytes

/-!
# Dictionaries

A finite map from byte strings to byte strings, kept as a list with strictly increasing keys, so
that a map has one representation.

* `Dict.insert` adds an entry or replaces the one with the same key.
* `Dict.find?` looks a key up; `find?_insert` says what an insertion does to every look-up.
-/

namespace JavaFloor

/-- A list of entries whose keys increase. -/
structure Dict where
  entries : List (Bytes × Bytes)
  sorted : entries.Pairwise (·.1 < ·.1)

namespace Dict

/-- The map without entries. -/
def empty : Dict := ⟨[], .nil⟩

/-- Puts an entry in its place, in the place of one with the same key if there is one. -/
def insertEntry (key value : Bytes) : List (Bytes × Bytes) → List (Bytes × Bytes)
  | [] => [(key, value)]
  | e :: es =>
    if key < e.1 then (key, value) :: e :: es
    else if key = e.1 then (key, value) :: es
    else e :: insertEntry key value es

theorem mem_insertEntry {key value : Bytes} {es : List (Bytes × Bytes)} {x : Bytes × Bytes}
    (h : x ∈ insertEntry key value es) : x = (key, value) ∨ x ∈ es := by
  induction es with
  | nil => simpa [insertEntry] using h
  | cons e es ih =>
    rw [insertEntry] at h
    split at h
    · simpa using h
    · split at h
      · rcases List.mem_cons.1 h with h | h
        · exact .inl h
        · exact .inr (List.mem_cons_of_mem _ h)
      · rcases List.mem_cons.1 h with h | h
        · exact .inr (h ▸ List.mem_cons_self)
        · exact (ih h).imp_right (List.mem_cons_of_mem _)

theorem sorted_insertEntry {key value : Bytes} {es : List (Bytes × Bytes)}
    (h : es.Pairwise (·.1 < ·.1)) : (insertEntry key value es).Pairwise (·.1 < ·.1) := by
  induction es with
  | nil => simp [insertEntry]
  | cons e es ih =>
    obtain ⟨he, hes⟩ := List.pairwise_cons.1 h
    rw [insertEntry]
    split
    next hlt =>
      refine List.pairwise_cons.2 ⟨fun x hx => ?_, h⟩
      rcases List.mem_cons.1 hx with rfl | hx
      · exact hlt
      · exact List.lt_trans hlt (he x hx)
    next hlt =>
      split
      next heq => exact List.pairwise_cons.2 ⟨fun x hx => heq ▸ he x hx, hes⟩
      next hne =>
        refine List.pairwise_cons.2 ⟨fun x hx => ?_, ih hes⟩
        rcases mem_insertEntry hx with rfl | hx
        · rcases List.le_total e.1 key with hle | hle
          · exact Classical.byContradiction fun hn =>
              hne (List.le_antisymm (List.not_lt.1 hn) hle)
          · exact absurd (Classical.byContradiction fun hn =>
              hne (List.le_antisymm hle (List.not_lt.1 hn))) hlt
        · exact he x hx

/-- With `value` under `key`, whatever stood there before. -/
def insert (d : Dict) (key value : Bytes) : Dict :=
  ⟨insertEntry key value d.entries, sorted_insertEntry d.sorted⟩

/-- The value of the first entry with the key `k`. -/
def lookup (k : Bytes) : List (Bytes × Bytes) → Option Bytes
  | [] => none
  | e :: es => if k = e.1 then some e.2 else lookup k es

/-- The value under `k`. -/
def find? (d : Dict) (k : Bytes) : Option Bytes := lookup k d.entries

/-- No entry at all. -/
def isEmpty (d : Dict) : Bool := d.entries.isEmpty

/-- The entries of a list; of two with the same key the later one. -/
def ofList (es : List (Bytes × Bytes)) : Dict :=
  es.foldl (fun d e => d.insert e.1 e.2) empty

theorem lookup_insertEntry (key value k : Bytes) (es : List (Bytes × Bytes)) :
    lookup k (insertEntry key value es) = if k = key then some value else lookup k es := by
  induction es with
  | nil => rfl
  | cons e es ih =>
    rw [insertEntry]
    split
    · rfl
    · split
      next heq =>
        rw [lookup, lookup, ← heq]
        split <;> rfl
      next hne =>
        rw [lookup, lookup, ih]
        by_cases h : k = e.1
        · rw [if_pos h, if_neg fun h' => hne (h'.symm.trans h), if_pos h]
        · rw [if_neg h, if_neg h]

/-- An insertion changes the look-up of its own key and of no other. -/
theorem find?_insert (d : Dict) (key value k : Bytes) :
    (d.insert key value).find? k = if k = key then some value else d.find? k :=
  lookup_insertEntry key value k d.entries

/-- The last entry of a list takes the place of those before it that have its key. -/
theorem find?_ofList_concat (es : List (Bytes × Bytes)) (e : Bytes × Bytes) (k : Bytes) :
    (ofList (es ++ [e])).find? k = if k = e.1 then some e.2 else (ofList es).find? k := by
  rw [ofList, List.foldl_append]
  exact find?_insert _ e.1 e.2 k

@[simp]
theorem find?_empty (k : Bytes) : empty.find? k = none := rfl

end Dict

end JavaFloor
