import JavaFloor.Proofs.Dict
import JavaFloor.Proofs.Filter.Interval

/-!
# What a filter is accepted for and flattened into

Whether a filter is accepted is a matter of its tree alone, and so is what it expects.

* `Node.items` are the items at the leaves of a tree, in the order of the text, each with its
  polarity.
* `Node.Supported` says that no conjunction is negated, that no `version=x` is, and that the version
  is compared with versions only. A tree means something if and only if it is supported
  (`Node.isSome_literals?_iff`), and then it means its items (`Node.items_literals`).
* `IsInterval` says which bounds a list of comparisons is folded into.
* `parse_flatten`: a filter is accepted if and only if it is the text of a supported tree, and it is
  flattened into the last value of each key and the interval of its comparisons.
-/

namespace JavaFloor

namespace Filter

/-! ## Items -/

/-- The operator compares versions. -/
def Operator.compares : Operator → Bool
  | .greaterEqual | .lessEqual => true
  | .equal | .approximate => false

/-- An item at a leaf of a tree, with its polarity. -/
structure Item where
  negated : Bool
  key : Bytes
  operator : Operator
  value : Bytes
  deriving DecidableEq

namespace Item

/-- The item compares the version. -/
def IsComparison (i : Item) : Prop := i.key = versionKey ∧ i.operator.compares = true

instance (i : Item) : Decidable i.IsComparison := inferInstanceAs (Decidable (_ ∧ _))

/-- The version is compared with a version, and it is not negated that it is a text. -/
def Supported (i : Item) : Prop :=
  i.key = versionKey →
    if i.operator.compares then ∃ v, Version.parse i.value = .ok v else i.negated = false

/-- The entry that an item asks for. A comparison asks for none, and neither does what is
negated. -/
def entry? (i : Item) : Option (Bytes × Bytes) :=
  if i.negated = true ∨ i.IsComparison then none else some (i.key, i.value)

/-- The literal of an item. -/
def literal? (i : Item) : Option Literal :=
  (termOf i.negated i.key i.operator i.value).toOption.map (⟨i.negated, ·⟩)

variable {i : Item} {l : Literal}

/-- A comparison that the reader accepts is one with a version. -/
theorem toOption_comparison (relation : Relation) (value : Bytes) :
    (comparison relation value).toOption =
      (Version.parse value).toOption.map fun v => .compare relation v := by
  rw [comparison]
  cases Version.parse value <;> rfl

theorem isSome_literal?_iff (i : Item) : i.literal?.isSome ↔ i.Supported := by
  obtain ⟨negated, key, operator, value⟩ := i
  have parsed : (Version.parse value).toOption.isSome ↔ ∃ v, Version.parse value = .ok v := by
    cases Version.parse value <;> simp [Except.toOption]
  rw [literal?, Option.isSome_map, Supported]
  unfold termOf
  by_cases hkey : key = versionKey
  · cases operator with
    | equal | approximate => cases negated <;> simp [hkey, Operator.compares, Except.toOption]
    | greaterEqual | lessEqual =>
      simp [hkey, Operator.compares, toOption_comparison, parsed]
  · simp [hkey, Except.toOption]

/-- The literal of an item compares what the item compares, and asks for the same entry. -/
theorem literal?_eq_some (h : i.literal? = some l) :
    (l.isComparison = true ↔ i.IsComparison) ∧ l.entry? = i.entry? := by
  obtain ⟨negated, key, operator, value⟩ := i
  obtain ⟨t, ht, rfl⟩ := Option.map_eq_some_iff.1 h
  unfold termOf at ht
  by_cases hkey : key = versionKey
  · cases operator with
    | equal | approximate =>
      cases negated with
      | true => simp [hkey, Except.toOption] at ht
      | false =>
        simp only [hkey, Except.toOption, if_true, Bool.false_eq_true, if_false,
          Option.some.injEq] at ht
        simp [← ht, hkey, IsComparison, Operator.compares, Literal.isComparison, Literal.entry?,
          entry?]
    | greaterEqual | lessEqual =>
      simp only [hkey, if_true, toOption_comparison, Option.map_eq_some_iff] at ht
      obtain ⟨v, -, rfl⟩ := ht
      cases negated <;> simp [hkey, IsComparison, Operator.compares, Literal.isComparison,
        Literal.entry?, entry?]
  · simp only [hkey, Except.toOption, if_false, Option.some.injEq] at ht
    cases negated <;>
      simp [← ht, hkey, IsComparison, Literal.isComparison, Literal.entry?, entry?]

end Item

mutual

/-- The items of a tree from left to right. Two negations around one cancel. -/
def Node.items (negated : Bool) : Node → List Item
  | .item key operator value => [⟨negated, key, operator, value⟩]
  | .not node => node.items (!negated)
  | .all nodes => Node.allItems negated nodes

/-- The items of several trees. -/
def Node.allItems (negated : Bool) : List Node → List Item
  | [] => []
  | node :: nodes => node.items negated ++ Node.allItems negated nodes

end

mutual

/-- No conjunction is negated, and all items are supported. -/
def Node.Supported (negated : Bool) : Node → Prop
  | .item key operator value => Item.Supported ⟨negated, key, operator, value⟩
  | .not node => node.Supported (!negated)
  | .all nodes => negated = false ∧ Node.AllSupported nodes

/-- Several trees under no negation are supported. -/
def Node.AllSupported : List Node → Prop
  | [] => True
  | node :: nodes => node.Supported false ∧ Node.AllSupported nodes

end

variable {f : Filter} {negated : Bool}

theorem item_literals? (key : Bytes) (operator : Operator) (value : Bytes) :
    (Node.item key operator value).literals? negated =
      (Item.literal? ⟨negated, key, operator, value⟩).map fun l => [l] := by
  rw [Node.literals?, Item.literal?, Option.map_map]
  rfl

mutual

/-- A tree means something if it is supported. -/
theorem Node.isSome_literals?_iff (n : Node) (negated : Bool) :
    (n.literals? negated).isSome ↔ n.Supported negated := by
  match n with
  | .item key operator value =>
    rw [item_literals?, Option.isSome_map, Item.isSome_literal?_iff, Node.Supported]
  | .not n => rw [Node.literals?, Node.Supported, n.isSome_literals?_iff]
  | .all ns =>
    rw [Node.literals?, Node.Supported, ← Node.isSome_allLiterals?_iff ns]
    cases negated <;> simp

theorem Node.isSome_allLiterals?_iff (ns : List Node) :
    (Node.allLiterals? ns).isSome ↔ Node.AllSupported ns := by
  match ns with
  | [] => simp [Node.allLiterals?, Node.AllSupported]
  | n :: ns =>
    rw [Node.allLiterals?, Node.AllSupported, ← n.isSome_literals?_iff,
      ← Node.isSome_allLiterals?_iff ns]
    cases n.literals? false <;> simp

end

mutual

/-- A tree means its items. -/
theorem Node.items_literals (n : Node) {negated : Bool} {f : Filter}
    (h : n.literals? negated = some f) :
    List.Forall₂ (fun i l => Item.literal? i = some l) (n.items negated) f := by
  match n with
  | .item key operator value =>
    rw [item_literals?] at h
    obtain ⟨l, hl, rfl⟩ := Option.map_eq_some_iff.1 h
    rw [Node.items]
    exact .cons hl .nil
  | .not n =>
    rw [Node.literals?] at h
    rw [Node.items]
    exact n.items_literals h
  | .all ns =>
    rw [Node.literals?] at h
    split at h
    next => cases h
    next hneg =>
      rw [Node.items, Bool.eq_false_iff.2 hneg]
      exact Node.allItems_literals ns h

theorem Node.allItems_literals (ns : List Node) {f : Filter} (h : Node.allLiterals? ns = some f) :
    List.Forall₂ (fun i l => Item.literal? i = some l) (Node.allItems false ns) f := by
  match ns with
  | [] =>
    rw [Node.allLiterals?] at h
    cases h
    rw [Node.allItems]
    exact .nil
  | n :: ns =>
    rw [Node.allLiterals?] at h
    obtain ⟨f₁, h₁, h⟩ := Option.bind_eq_some_iff.1 h
    obtain ⟨f₂, h₂, rfl⟩ := Option.map_eq_some_iff.1 h
    rw [Node.allItems]
    exact List.rel_append (n.items_literals h₁) (Node.allItems_literals ns h₂)

end

/-! ## Entries and comparisons -/

section Items

variable {items : List Item}

theorem supported_of_items (h : List.Forall₂ (fun i l => Item.literal? i = some l) items f) :
    ∀ i ∈ items, i.Supported := by
  induction h with
  | nil => simp
  | @cons i l _ _ hl _ ih =>
    have hsome : i.literal?.isSome := by rw [hl]; rfl
    exact List.forall_mem_cons.2 ⟨i.isSome_literal?_iff.1 hsome, ih⟩

/-- The literals of items ask for the entries of the items. -/
theorem filterMap_entry?_of_items
    (h : List.Forall₂ (fun i l => Item.literal? i = some l) items f) :
    f.filterMap Literal.entry? = items.filterMap Item.entry? := by
  induction h with
  | nil => rfl
  | cons hl _ ih => rw [List.filterMap_cons, List.filterMap_cons, (Item.literal?_eq_some hl).2, ih]

/-- The literals of items compare something if one of the items does. -/
theorem filter_isComparison_eq_nil_iff
    (h : List.Forall₂ (fun i l => Item.literal? i = some l) items f) :
    f.filter Literal.isComparison = [] ↔ ∀ i ∈ items, ¬ i.IsComparison := by
  induction h with
  | nil => simp
  | cons hl _ ih =>
    rw [List.forall_mem_cons, ← ih, ← (Item.literal?_eq_some hl).1, List.filter_cons]
    split
    next hc => simp [hc]
    next hc => simp [hc]

/-- Items on the version that compare nothing ask for an entry under `version`. -/
theorem isSome_lastValue_version_iff (supported : ∀ i ∈ items, i.Supported)
    (hnone : ∀ i ∈ items, ¬ i.IsComparison) :
    (Dict.lastValue (items.filterMap Item.entry?) versionKey).isSome ↔
      ∃ i ∈ items, i.key = versionKey := by
  rw [Dict.isSome_lastValue_iff]
  constructor
  · rintro ⟨e, he, hkey⟩
    obtain ⟨i, hi, hentry⟩ := List.mem_filterMap.1 he
    rw [Item.entry?] at hentry
    split at hentry
    next => cases hentry
    next =>
      cases hentry
      exact ⟨i, hi, hkey⟩
  · rintro ⟨i, hi, hkey⟩
    have hcompares : ¬ i.operator.compares = true := fun hc => hnone i hi ⟨hkey, hc⟩
    have hpositive := supported i hi hkey
    rw [if_neg hcompares] at hpositive
    have hentry : i.entry? = some (i.key, i.value) :=
      if_neg fun hor => hor.elim (by simp [hpositive]) (hnone i hi)
    exact ⟨_, List.mem_filterMap.2 ⟨i, hi, hentry⟩, hkey⟩

end Items

/-! ## What is flattened -/

/-- The interval from `low` to `ceiling` is what the comparisons are folded into: it goes from the
highest floor, or from `0.0.0` if no comparison demands one, to the lowest ceiling, if any. -/
structure IsInterval (ls : List Literal) (low : Bound) (ceiling : Option Bound) : Prop where
  low_mem : low ∈ floorsOf ls
  highest : Bound.IsHighest (floorsOf ls) low
  lowest : (ls.filterMap Literal.ceiling? = [] ∧ ceiling = none) ∨
    ∃ b ∈ ls.filterMap Literal.ceiling?, ceiling = some b ∧
      Bound.IsLowest (ls.filterMap Literal.ceiling?) b

theorem lowEnd_mem (f : Filter) : f.lowEnd ∈ floorsOf f := by
  rw [floorsOf, lowEnd]
  rcases floor?_cases f with ⟨hnil, hnone⟩ | ⟨b, hb, hsome, -⟩
  · rw [if_pos hnil, hnone]
    exact List.mem_singleton_self _
  · rw [if_neg (List.ne_nil_of_mem hb), hsome]
    exact hb

theorem isInterval_comparisons (f : Filter) :
    IsInterval (f.filter Literal.isComparison) f.lowEnd f.ceiling? := by
  have hfloors : floorsOf (f.filter Literal.isComparison) = floorsOf f := by
    rw [floorsOf, floorsOf, filterMap_floor?_comparisons]
  refine ⟨?_, ?_, ?_⟩
  · rw [hfloors]
    exact lowEnd_mem f
  · rw [hfloors]
    exact isHighest_lowEnd f
  · rw [filterMap_ceiling?_comparisons]
    exact ceiling?_cases f

/-- Without a comparison every key has the last value that is asked for word by word. -/
theorem find?_flatten_of_nil (h : f.filter Literal.isComparison = []) (key : Bytes) :
    f.flatten.find? key = Dict.lastValue (f.filterMap Literal.entry?) key := by
  have hnone : f.interval? = none := by
    rw [← interval?_comparisons, h]
    rfl
  rw [flatten, hnone]
  exact Dict.find?_ofList _ key

/-- The entries that a tree asks for word by word, in the order of the text. -/
def Node.entries (n : Node) : List (Bytes × Bytes) := (n.items false).filterMap Item.entry?

/-- **A filter is accepted if and only if it is the text of a supported tree.** Each key other than
`version` is flattened into its last value outside of negations, and is missing if it has none.
There is a version if and only if some item is on the version. It is the last one that is given, or
the interval of the comparisons if there are any. -/
theorem parse_flatten (s : Bytes) :
    ((∃ f, parse s = .ok f) ↔ ∃ n, Spelled n (Bytes.trim s) ∧ n.Supported false) ∧
    ∀ f n, parse s = .ok f → Spelled n (Bytes.trim s) →
      (∀ key, key ≠ versionKey → f.flatten.find? key = Dict.lastValue n.entries key) ∧
      ((f.flatten.find? versionKey).isSome ↔ ∃ i ∈ n.items false, i.key = versionKey) ∧
      ((∀ i ∈ n.items false, ¬ i.IsComparison) →
        f.flatten.find? versionKey = Dict.lastValue n.entries versionKey) ∧
      ((∃ i ∈ n.items false, i.IsComparison) →
        ∃ low ceiling, IsInterval (n.comparisons false) low ceiling ∧
          interval? (n.comparisons false) = some (Bound.renderInterval low ceiling) ∧
          f.flatten.find? versionKey = some (Bound.renderInterval low ceiling)) := by
  constructor
  · simp only [parse_eq_ok_iff, ← Node.isSome_literals?_iff, Option.isSome_iff_exists]
    constructor
    · rintro ⟨f, n, hn, hf⟩
      exact ⟨n, hn, f, hf⟩
    · rintro ⟨n, hn, f, hf⟩
      exact ⟨f, n, hn, hf⟩
  · intro f n hf hn
    have hmeans := hn.parse_eq_ok_iff.1 hf
    have hitems := n.items_literals hmeans
    have hentries : f.filterMap Literal.entry? = n.entries := filterMap_entry?_of_items hitems
    have hsilent := filter_isComparison_eq_nil_iff hitems
    have hinterval : (∃ i ∈ n.items false, i.IsComparison) →
        f.interval? = some (Bound.renderInterval f.lowEnd f.ceiling?) := by
      rintro ⟨i, hi, hic⟩
      exact interval?_eq_some fun hnil => hsilent.1 hnil i hi hic
    refine ⟨fun key hkey => ?_, ?_, fun hnone => ?_, fun hc => ?_⟩
    · rw [find?_flatten_of_ne hkey, Dict.find?_ofList, hentries]
    · by_cases hc : ∃ i ∈ n.items false, i.IsComparison
      · rw [find?_flatten_of_interval (hinterval hc)]
        obtain ⟨i, hi, hkey, -⟩ := hc
        exact iff_of_true rfl ⟨i, hi, hkey⟩
      · have hnone : ∀ i ∈ n.items false, ¬ i.IsComparison := fun i hi hic => hc ⟨i, hi, hic⟩
        rw [find?_flatten_of_nil (hsilent.2 hnone), hentries]
        exact isSome_lastValue_version_iff (supported_of_items hitems) hnone
    · rw [find?_flatten_of_nil (hsilent.2 hnone), hentries]
    · refine ⟨f.lowEnd, f.ceiling?, ?_, ?_, find?_flatten_of_interval (hinterval hc)⟩
      · rw [n.comparisons_eq hmeans]
        exact isInterval_comparisons f
      · rw [n.comparisons_eq hmeans, interval?_comparisons, hinterval hc]

/-- A key that is given three times, once under a negation, and a version that is given and
compared. -/
theorem parse_flatten_last :
    ∃ f, parse (ascii " (&(a=1)(!(!(a=2)))(!(a=3))(version=1.5)(!(version>=1.9))) ") = .ok f ∧
      f.flatten.find? (ascii "a") = some (ascii "2") ∧
      f.flatten.find? versionKey = some (ascii "[0.0.0,1.9)") := by
  have first : Spelled (.item (ascii "a") .equal (ascii "1")) (ascii "(a=1)") :=
    .plain (ascii "a=1") (by decide +kernel) (by decide +kernel) (by decide +kernel)
  have second : Spelled (.item (ascii "a") .equal (ascii "2")) (ascii "(a=2)") :=
    .plain (ascii "a=2") (by decide +kernel) (by decide +kernel) (by decide +kernel)
  have third : Spelled (.item (ascii "a") .equal (ascii "3")) (ascii "(a=3)") :=
    .plain (ascii "a=3") (by decide +kernel) (by decide +kernel) (by decide +kernel)
  have given : Spelled (.item versionKey .equal (ascii "1.5")) (ascii "(version=1.5)") :=
    .plain (ascii "version=1.5") (by decide +kernel) (by decide +kernel) (by decide +kernel)
  have ceiling : Spelled (.item versionKey .greaterEqual (ascii "1.9")) (ascii "(version>=1.9)") :=
    .plain (ascii "version>=1.9") (by decide +kernel) (by decide +kernel) (by decide +kernel)
  have twice : Spelled _ (ascii "(!(!(a=2)))") :=
    .of_body (.not (.of_body (.not second isGap_nil)) isGap_nil)
  have tree : Spelled _ (ascii "(&(a=1)(!(!(a=2)))(!(a=3))(version=1.5)(!(version>=1.9)))") :=
    .of_body (.all (.cons first (.cons twice (.cons (.of_body (.not third isGap_nil))
      (.cons given (.cons (.of_body (.not ceiling isGap_nil)) .nil))))) isGap_nil)
  have htrim : Bytes.trim (ascii " (&(a=1)(!(!(a=2)))(!(a=3))(version=1.5)(!(version>=1.9))) ") =
      ascii "(&(a=1)(!(!(a=2)))(!(a=3))(version=1.5)(!(version>=1.9)))" := by decide +kernel
  rw [← htrim] at tree
  obtain ⟨accepts, flattens⟩ :=
    parse_flatten (ascii " (&(a=1)(!(!(a=2)))(!(a=3))(version=1.5)(!(version>=1.9))) ")
  obtain ⟨f, hf⟩ := accepts.2 ⟨_, tree, (Node.isSome_literals?_iff _ _).1 (by decide +kernel)⟩
  obtain ⟨hkeys, -, -, hversion⟩ := flattens f _ hf tree
  obtain ⟨low, high, -, hinterval, hfind⟩ := hversion (by decide +kernel)
  refine ⟨f, hf, (hkeys _ (by decide)).trans (by decide +kernel), ?_⟩
  exact hfind.trans (hinterval.symm.trans (by decide +kernel))

end Filter

end JavaFloor
