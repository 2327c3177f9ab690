import JavaFloor.Proofs.Filter.Grammar

/-!
# What the reader of filters accepts

The reader accepts the texts of trees and no other.

* `Reads`, `ReadsBody` and `ReadsAll` say what the three functions of the reader give. They are
  opened by `reads_iff`, `readsBody_iff` and `readsAll_iff` only.
* `Spelled.reads_iff`: in front of any text, the reader gives the meaning of the tree that is
  spelled there, or fails if the tree means nothing.
* `Reads.exists_spelled`: whatever the reader gives is the meaning of a tree spelled there.
* `parse_eq_ok_iff` and `Spelled.parse_eq_ok_iff`: the same for a filter as a whole.
-/

namespace JavaFloor

namespace Filter

variable {s t rest rest' : Bytes} {f : Filter} {negated : Bool}

/-! ## The three readers -/

/-- The reader of nodes gives `f` and the text `rest` behind it. -/
def Reads (negated : Bool) (s : Bytes) (f : Filter) (rest : Bytes) : Prop :=
  (readNode negated s).map Subtype.val = .ok (f, rest)

/-- The reader of bodies gives `f` and the text `rest` behind it. -/
def ReadsBody (negated : Bool) (s : Bytes) (f : Filter) (rest : Bytes) : Prop :=
  (readBody negated s).map Subtype.val = .ok (f, rest)

/-- The reader of several nodes gives `f` and the text `rest` behind them. -/
def ReadsAll (s : Bytes) (f : Filter) (rest : Bytes) : Prop :=
  (readNodes s).map Subtype.val = .ok (f, rest)

theorem Reads.length_lt (h : Reads negated s f rest) : rest.length < s.length := by
  obtain ⟨⟨_, hlt⟩, -, rfl⟩ := map_eq_ok h
  exact hlt

/-- A node is a body between parentheses. -/
theorem reads_iff : Reads negated s f rest ↔
    ∃ s₁ s₂, skipBlanks s = Ascii.byte '(' :: s₁ ∧ ReadsBody negated (skipBlanks s₁) f s₂ ∧
      skipBlanks s₂ = Ascii.byte ')' :: rest := by
  constructor
  · intro h
    rw [Reads, readNode] at h
    split at h
    next => cases h
    next c s₁ hs₁ =>
      split at h
      next hc =>
        split at h
        next => cases h
        next f' s₂ h₂ hbody =>
          split at h
          next => cases h
          next d s₃ hs₃ =>
            split at h
            next hd =>
              cases h
              exact ⟨s₁, s₂, hc ▸ hs₁, by rw [ReadsBody, hbody]; rfl, hd ▸ hs₃⟩
            next => cases h
      next => cases h
  · rintro ⟨s₁, s₂, hs₁, hbody, hs₂⟩
    obtain ⟨⟨_, h₂⟩, hbody, rfl⟩ := map_eq_ok hbody
    rw [Reads, readNode]
    split
    next heq => cases hs₁.symm.trans heq
    next c s heq =>
      cases hs₁.symm.trans heq
      rw [if_pos rfl]
      split
      next heq => cases hbody.symm.trans heq
      next heq =>
        cases hbody.symm.trans heq
        split
        next heq => cases hs₂.symm.trans heq
        next heq =>
          cases hs₂.symm.trans heq
          rfl

/-- The first byte of a body tells what it is. -/
theorem readsBody_iff : ReadsBody negated s f rest ↔
    (∃ s₁, s = Ascii.byte '&' :: s₁ ∧ negated = false ∧ ReadsAll (skipBlanks s₁) f rest) ∨
    (∃ s₁, s = Ascii.byte '!' :: s₁ ∧ Reads (!negated) s₁ f rest) ∨
    ∃ item l, (∀ c ∈ s.head?, ¬ IsConnective c) ∧ readItem s = .ok (item, rest) ∧
      literalOf negated item = .ok l ∧ f = [l] := by
  constructor
  · intro h
    rw [ReadsBody, readBody.eq_def] at h
    split at h
    next => cases h
    next c s₁ =>
      split at h
      next hc =>
        split at h
        next => cases h
        next hneg =>
          split at h
          next => cases h
          next f' s₂ h₂ hall =>
            cases h
            refine .inl ⟨s₁, by rw [hc], Bool.eq_false_iff.2 hneg, ?_⟩
            rw [ReadsAll, hall]
            rfl
      next hand =>
        split at h
        next hc =>
          split at h
          next => cases h
          next f' s₂ h₂ hnode =>
            cases h
            refine .inr (.inl ⟨s₁, by rw [hc], ?_⟩)
            rw [Reads, hnode]
            rfl
        next hnot =>
          split at h
          next => cases h
          next hor =>
            split at h
            next => cases h
            next item s₂ hitem =>
              split at h
              next => cases h
              next l hl =>
                cases h
                refine .inr (.inr ⟨item, l, ?_, hitem, hl, rfl⟩)
                intro d hd
                cases hd
                exact fun h => h.elim hand fun h => h.elim hnot hor
  · rintro (⟨s₁, rfl, rfl, hall⟩ | ⟨s₁, rfl, hnode⟩ | ⟨item, l, hconn, hitem, hl, rfl⟩)
    · obtain ⟨⟨_, h₂⟩, hall, rfl⟩ := map_eq_ok hall
      rw [ReadsBody, readBody.eq_def]
      simp only [Bool.false_eq_true, if_true, if_false, hall]
      rfl
    · obtain ⟨⟨_, h₂⟩, hnode, rfl⟩ := map_eq_ok hnode
      rw [ReadsBody, readBody.eq_def]
      have hne : Ascii.byte '!' ≠ Ascii.byte '&' := by decide
      simp only [hne, if_true, if_false, hnode]
      rfl
    · rw [ReadsBody, readBody.eq_def]
      split
      next => cases hitem
      next c s₁ =>
        have hc := hconn c rfl
        simp only [IsConnective, not_or] at hc
        rw [if_neg hc.1, if_neg hc.2.1, if_neg hc.2.2]
        split
        next heq => cases hitem.symm.trans heq
        next heq =>
          cases hitem.symm.trans heq
          rw [hl]
          rfl

/-- Nodes are read as long as one opens. -/
theorem readsAll_iff : ReadsAll s f rest ↔
    (s.head? ≠ some (Ascii.byte '(') ∧ f = [] ∧ rest = s) ∨
    ∃ f₁ s₁ f₂, s.head? = some (Ascii.byte '(') ∧ Reads false s f₁ s₁ ∧
      ReadsAll (skipBlanks s₁) f₂ rest ∧ f = f₁ ++ f₂ := by
  constructor
  · intro h
    rw [ReadsAll, readNodes] at h
    split at h
    next hopen =>
      split at h
      next => cases h
      next f₁ s₁ h₁ hnode =>
        split at h
        next => cases h
        next f₂ s₂ h₂ hall =>
          cases h
          refine .inr ⟨f₁, s₁, f₂, hopen, ?_, ?_, rfl⟩
          · rw [Reads, hnode]
            rfl
          · rw [ReadsAll, hall]
            rfl
    next hopen =>
      cases h
      exact .inl ⟨hopen, rfl, rfl⟩
  · rintro (⟨hopen, rfl, rfl⟩ | ⟨f₁, s₁, f₂, hopen, hnode, hall, rfl⟩)
    · rw [ReadsAll, readNodes, if_neg hopen]
      rfl
    · obtain ⟨⟨_, h₁⟩, hnode, rfl⟩ := map_eq_ok hnode
      obtain ⟨⟨_, h₂⟩, hall, rfl⟩ := map_eq_ok hall
      rw [ReadsAll, readNodes, if_pos hopen]
      split
      next heq => cases hnode.symm.trans heq
      next heq =>
        cases hnode.symm.trans heq
        split
        next heq => cases hall.symm.trans heq
        next heq =>
          cases hall.symm.trans heq
          rfl

theorem readsBody_and_iff : ReadsBody negated (Ascii.byte '&' :: s) f rest ↔
    negated = false ∧ ReadsAll (skipBlanks s) f rest := by
  rw [readsBody_iff]
  constructor
  · rintro (⟨s₁, hs, h⟩ | ⟨s₁, hs, -⟩ | ⟨_, _, hconn, -⟩)
    · cases hs
      exact h
    · cases hs
    · exact absurd (.inl rfl) (hconn _ rfl)
  · exact fun h => .inl ⟨s, rfl, h⟩

theorem readsBody_not_iff : ReadsBody negated (Ascii.byte '!' :: s) f rest ↔
    Reads (!negated) s f rest := by
  rw [readsBody_iff]
  constructor
  · rintro (⟨s₁, hs, -⟩ | ⟨s₁, hs, h⟩ | ⟨_, _, hconn, -⟩)
    · cases hs
    · cases hs
      exact h
    · exact absurd (.inr (.inl rfl)) (hconn _ rfl)
  · exact fun h => .inr (.inl ⟨s, rfl, h⟩)

theorem readsBody_item_iff (hconn : ∀ c ∈ s.head?, ¬ IsConnective c) :
    ReadsBody negated s f rest ↔
      ∃ item l, readItem s = .ok (item, rest) ∧ literalOf negated item = .ok l ∧ f = [l] := by
  rw [readsBody_iff]
  constructor
  · rintro (⟨s₁, rfl, -⟩ | ⟨s₁, rfl, -⟩ | ⟨item, l, -, h⟩)
    · exact absurd (.inl rfl) (hconn _ rfl)
    · exact absurd (.inr (.inl rfl)) (hconn _ rfl)
    · exact ⟨item, l, h⟩
  · rintro ⟨item, l, h⟩
    exact .inr (.inr ⟨item, l, hconn, h⟩)

/-- A gap in front of a node is skipped. -/
theorem reads_skipBlanks_iff : Reads negated (skipBlanks s) f rest ↔ Reads negated s f rest := by
  rw [reads_iff, reads_iff, skipBlanks_eq_self (head_skipBlanks s)]

/-! ## Texts of trees are read -/

/-- A body starts with a byte that is not skipped. -/
theorem SpelledBody.head {n : Node} {body : Bytes} (h : SpelledBody n body) (rest : Bytes) :
    ∀ c ∈ (body ++ Ascii.byte ')' :: rest).head?, isBlank c = false := by
  intro c hc
  cases h with
  | item escaped opens item =>
    cases body with
    | nil => cases hc; rfl
    | cons d raw => cases hc; exact (opens c rfl).1
  | not => cases hc; rfl
  | all => cases hc; rfl

theorem skipBlanks_closing (rest : Bytes) :
    skipBlanks (Ascii.byte ')' :: rest) = Ascii.byte ')' :: rest :=
  skipBlanks_eq_self fun c hc => by cases hc; rfl

/-- Behind its gap a node starts with a parenthesis. -/
theorem skipBlanks_node {front : Bytes} (h : IsGap front) (inner rest : Bytes) :
    skipBlanks (front ++ Ascii.byte '(' :: (inner ++ [Ascii.byte ')']) ++ rest) =
      Ascii.byte '(' :: (inner ++ Ascii.byte ')' :: rest) := by
  rw [List.append_assoc, skipBlanks_append h, skipBlanks_eq_self]
  · simp
  · intro c hc
    cases hc
    rfl

theorem Spelled.head {n : Node} (h : Spelled n s) (rest : Bytes) :
    (skipBlanks (s ++ rest)).head? = some (Ascii.byte '(') := by
  cases h with
  | @node _ front gap body hfront hgap hbody =>
    rw [← List.append_assoc, skipBlanks_node hfront, List.head?_cons]

/-- Where several nodes are read, a first node is read as it is on its own. -/
theorem readsAll_append_iff {n : Node} {tail : Bytes} (h : Spelled n s)
    (hread : ∀ f rest', Reads false (s ++ tail) f rest' ↔
      n.literals? false = some f ∧ rest' = tail) :
    ReadsAll (skipBlanks (s ++ tail)) f rest ↔
      ∃ f₁ f₂, n.literals? false = some f₁ ∧ ReadsAll (skipBlanks tail) f₂ rest ∧ f = f₁ ++ f₂ := by
  have hopen := h.head tail
  rw [readsAll_iff]
  constructor
  · rintro (⟨hclosed, -⟩ | ⟨f₁, s₁, f₂, -, hnode, hall, rfl⟩)
    · exact absurd hopen hclosed
    · rw [reads_skipBlanks_iff, hread] at hnode
      obtain ⟨hf₁, rfl⟩ := hnode
      exact ⟨f₁, f₂, hf₁, hall, rfl⟩
  · rintro ⟨f₁, f₂, hf₁, hall, rfl⟩
    refine .inr ⟨f₁, tail, f₂, hopen, ?_, hall, rfl⟩
    rw [reads_skipBlanks_iff, hread]
    exact ⟨hf₁, rfl⟩

theorem exists_eq_singleton {key value : Bytes} {operator : Operator}
    (h : (Node.item key operator value).literals? negated = some f) : ∃ l, f = [l] := by
  obtain ⟨t, -, rfl⟩ := Option.map_eq_some_iff.1 h
  exact ⟨_, rfl⟩

mutual

/-- **The text of a tree is read as what it means**, or refused if it means nothing, whatever stands
behind it. -/
theorem Spelled.reads_iff {n : Node} {s : Bytes} (h : Spelled n s) (negated : Bool) (f : Filter)
    (rest rest' : Bytes) :
    Reads negated (s ++ rest) f rest' ↔ n.literals? negated = some f ∧ rest' = rest := by
  match h with
  | @Spelled.node _ front gap body hfront hgap hbody =>
    obtain ⟨behind, hbehind, hread⟩ := hbody.reads_iff rest
    have hstart : skipBlanks (gap ++ body ++ Ascii.byte ')' :: rest) =
        body ++ Ascii.byte ')' :: rest := by
      rw [List.append_assoc, skipBlanks_append hgap, skipBlanks_eq_self (hbody.head rest)]
    rw [Filter.reads_iff, ← List.append_assoc, skipBlanks_node hfront]
    constructor
    · rintro ⟨s₁, s₂, hs₁, hr, hs₂⟩
      cases hs₁
      rw [hstart] at hr
      obtain ⟨hf, rfl⟩ := (hread negated f s₂).1 hr
      rw [hbehind] at hs₂
      cases hs₂
      exact ⟨hf, rfl⟩
    · rintro ⟨hf, rfl⟩
      refine ⟨_, behind, rfl, ?_, hbehind⟩
      rw [hstart]
      exact (hread negated f behind).2 ⟨hf, rfl⟩

/-- The reader stops in front of the closing parenthesis or of a gap there. -/
theorem SpelledBody.reads_iff {n : Node} {s : Bytes} (h : SpelledBody n s) (rest : Bytes) :
    ∃ behind, skipBlanks behind = Ascii.byte ')' :: rest ∧
      ∀ negated f s₂, ReadsBody negated (s ++ Ascii.byte ')' :: rest) f s₂ ↔
        n.literals? negated = some f ∧ s₂ = behind := by
  match h with
  | @SpelledBody.item _ text key value operator escaped opens item =>
    refine ⟨_, skipBlanks_closing rest, fun negated f s₂ => ?_⟩
    have hconn : ∀ c ∈ (s ++ Ascii.byte ')' :: rest).head?, ¬ IsConnective c := by
      intro c hc
      cases s with
      | nil => cases hc; rintro (h | h | h) <;> cases h
      | cons d raw => cases hc; exact (opens c rfl).2
    have hitem : readItem (s ++ Ascii.byte ')' :: rest) = .ok (text, Ascii.byte ')' :: rest) :=
      readItem_eq_ok_iff.2 ⟨s, rest, rfl, rfl, escaped⟩
    rw [readsBody_item_iff hconn, hitem]
    constructor
    · rintro ⟨_, l, heq, hl, rfl⟩
      cases heq
      exact ⟨item.literalOf_eq_ok_iff.1 hl, rfl⟩
    · rintro ⟨hf, rfl⟩
      obtain ⟨l, rfl⟩ := exists_eq_singleton hf
      exact ⟨text, l, rfl, item.literalOf_eq_ok_iff.2 hf, rfl⟩
  | @SpelledBody.not n text gap node hgap =>
    refine ⟨gap ++ Ascii.byte ')' :: rest, ?_, fun negated f s₂ => ?_⟩
    · rw [skipBlanks_append hgap, skipBlanks_closing]
    · rw [List.cons_append, List.append_assoc, readsBody_not_iff, node.reads_iff, Node.literals?]
  | @SpelledBody.all ns text gap nodes hgap =>
    refine ⟨_, skipBlanks_closing rest, fun negated f s₂ => ?_⟩
    have htail : skipBlanks (gap ++ Ascii.byte ')' :: rest) = Ascii.byte ')' :: rest := by
      rw [skipBlanks_append hgap, skipBlanks_closing]
    have hstop : (skipBlanks (gap ++ Ascii.byte ')' :: rest)).head? ≠ some (Ascii.byte '(') := by
      rw [htail, List.head?_cons]
      decide
    rw [List.cons_append, List.append_assoc, readsBody_and_iff, nodes.reads_iff _ _ _ hstop, htail,
      Node.literals?]
    cases negated <;> simp

/-- The reader goes on until no node opens. -/
theorem SpelledAll.reads_iff {ns : List Node} {s : Bytes} (h : SpelledAll ns s) (f : Filter)
    (tail rest : Bytes) (hstop : (skipBlanks tail).head? ≠ some (Ascii.byte '(')) :
    ReadsAll (skipBlanks (s ++ tail)) f rest ↔
      Node.allLiterals? ns = some f ∧ rest = skipBlanks tail := by
  match h with
  | .nil =>
    rw [readsAll_iff, List.nil_append, Node.allLiterals?]
    constructor
    · rintro (⟨-, rfl, rfl⟩ | ⟨_, _, _, hopen, -⟩)
      · exact ⟨rfl, rfl⟩
      · exact absurd hopen hstop
    · rintro ⟨hf, rfl⟩
      cases hf
      exact .inl ⟨hstop, rfl, rfl⟩
  | @SpelledAll.cons n ns text more node nodes =>
    rw [List.append_assoc, readsAll_append_iff node fun f rest' => node.reads_iff false f _ rest',
      Node.allLiterals?]
    constructor
    · rintro ⟨f₁, f₂, hf₁, hall, rfl⟩
      obtain ⟨hf₂, hrest⟩ := (nodes.reads_iff _ _ _ hstop).1 hall
      exact ⟨by rw [hf₁, hf₂]; rfl, hrest⟩
    · rintro ⟨hf, hrest⟩
      obtain ⟨f₁, hf₁, hf⟩ := Option.bind_eq_some_iff.1 hf
      obtain ⟨f₂, hf₂, rfl⟩ := Option.map_eq_some_iff.1 hf
      exact ⟨f₁, f₂, hf₁, (nodes.reads_iff _ _ _ hstop).2 ⟨hf₂, hrest⟩, rfl⟩

end

/-! ## Only texts of trees are read -/

theorem Spelled.gap_append {n : Node} {gap : Bytes} (hgap : IsGap gap) (h : Spelled n s) :
    Spelled n (gap ++ s) := by
  cases h with
  | node hfront hinner hbody =>
    rw [← List.append_assoc]
    exact .node (hgap.append hfront) hinner hbody

/-- A gap in front of several trees belongs to the first one, or to the gap behind them. -/
theorem SpelledAll.gap_append {ns : List Node} {gap tail : Bytes} (hgap : IsGap gap)
    (htail : IsGap tail) (h : SpelledAll ns s) :
    ∃ text behind, SpelledAll ns text ∧ IsGap behind ∧ gap ++ (s ++ tail) = text ++ behind := by
  cases h with
  | nil => exact ⟨[], gap ++ tail, .nil, hgap.append htail, rfl⟩
  | cons node nodes =>
    exact ⟨_, tail, .cons (node.gap_append hgap) nodes, htail, by simp only [List.append_assoc]⟩

mutual

/-- **Whatever is read is the text of a tree**, and its meaning is given. -/
theorem Reads.exists_spelled {negated : Bool} {s rest : Bytes} {f : Filter}
    (h : Reads negated s f rest) :
    ∃ n text, s = text ++ rest ∧ Spelled n text ∧ n.literals? negated = some f := by
  obtain ⟨s₁, s₂, hopen, hread, hclose⟩ := reads_iff.1 h
  obtain ⟨front, hfront, hs⟩ := exists_gap s
  obtain ⟨gap, hgap, hs₁⟩ := exists_gap s₁
  have hlt : (skipBlanks s₁).length < s.length := by
    have ha := skipBlanks_length_le s
    have hb := skipBlanks_length_le s₁
    rw [hopen, List.length_cons] at ha
    omega
  obtain ⟨n, body, hbody, spelled, hf⟩ :=
    hread.exists_spelled (head_skipBlanks s₁) hclose
  refine ⟨n, _, ?_, .node hfront hgap spelled, hf⟩
  rw [hs, hopen, hs₁, hbody]
  simp
termination_by (s.length, 0)

theorem ReadsBody.exists_spelled {negated : Bool} {s s₂ rest : Bytes} {f : Filter}
    (h : ReadsBody negated s f s₂) (hs : ∀ c ∈ s.head?, isBlank c = false)
    (hclose : skipBlanks s₂ = Ascii.byte ')' :: rest) :
    ∃ n body, s = body ++ Ascii.byte ')' :: rest ∧ SpelledBody n body ∧
      n.literals? negated = some f := by
  obtain ⟨tail, htail, hs₂⟩ := exists_gap s₂
  rw [hclose] at hs₂
  rcases readsBody_iff.1 h with
    ⟨s₁, rfl, rfl, hall⟩ | ⟨s₁, rfl, hnode⟩ | ⟨item, l, hconn, hitem, hl, rfl⟩
  · obtain ⟨gap, hgap, hs₁⟩ := exists_gap s₁
    have hlt : (skipBlanks s₁).length < (Ascii.byte '&' :: s₁).length :=
      Nat.lt_succ_of_le (skipBlanks_length_le s₁)
    obtain ⟨ns, text, behind, hbehind, htext, spelled, hf⟩ := hall.exists_spelled
    obtain ⟨text', behind', spelled', hbehind', heq⟩ :=
      spelled.gap_append hgap (hbehind.append htail)
    refine ⟨.all ns, _, ?_, .all spelled' hbehind', by rw [Node.literals?]; exact hf⟩
    rw [hs₁, htext, hs₂, List.cons_append, ← heq]
    simp
  · obtain ⟨n, text, rfl, spelled, hf⟩ := hnode.exists_spelled
    refine ⟨.not n, _, ?_, .not spelled htail, by rw [Node.literals?]; exact hf⟩
    rw [hs₂, List.cons_append, List.append_assoc]
  · obtain ⟨raw, behind, rfl, hbehind, escaped⟩ := readItem_eq_ok_iff.1 hitem
    obtain ⟨key, operator, value, isItem⟩ := exists_isItem hl
    have heq : Ascii.byte ')' :: behind = Ascii.byte ')' :: rest := by
      rw [← skipBlanks_closing behind, ← hbehind, hclose]
    rw [heq] at hs hconn ⊢
    refine ⟨.item key operator value, raw, rfl, .item escaped ?_ isItem,
      isItem.literalOf_eq_ok_iff.1 hl⟩
    intro c hc
    cases raw with
    | nil => cases hc
    | cons d raw => cases hc; exact ⟨hs c rfl, hconn c rfl⟩
termination_by (s.length, 0)

theorem ReadsAll.exists_spelled {s rest : Bytes} {f : Filter} (h : ReadsAll s f rest) :
    ∃ ns text behind, IsGap behind ∧ s = text ++ (behind ++ rest) ∧ SpelledAll ns text ∧
      Node.allLiterals? ns = some f := by
  rcases readsAll_iff.1 h with ⟨-, rfl, rfl⟩ | ⟨f₁, s₁, f₂, -, hnode, hall, rfl⟩
  · exact ⟨[], [], [], isGap_nil, rfl, .nil, by rw [Node.allLiterals?]⟩
  · have hlt : (skipBlanks s₁).length < s.length :=
      Nat.lt_of_le_of_lt (skipBlanks_length_le s₁) hnode.length_lt
    obtain ⟨n, text, hs, spelled, hf₁⟩ := hnode.exists_spelled
    obtain ⟨ns, more, behind, hbehind, hmore, spelledMore, hf₂⟩ := hall.exists_spelled
    obtain ⟨gap, hgap, hs₁⟩ := exists_gap s₁
    obtain ⟨more', behind', spelled', hbehind', heq⟩ := spelledMore.gap_append hgap hbehind
    refine ⟨n :: ns, text ++ more', behind', hbehind', ?_, .cons spelled spelled', ?_⟩
    · rw [hs, hs₁, hmore, List.append_assoc, ← List.append_assoc more', ← heq]
      simp
    · rw [Node.allLiterals?, hf₁, hf₂]
      rfl
termination_by (s.length, 1)

end

/-! ## Filters -/

theorem readWhole_eq_ok_iff : readWhole s = .ok f ↔
    ∃ rest, Reads false s f rest ∧ skipBlanks rest = [] := by
  constructor
  · intro h
    rw [readWhole] at h
    split at h
    next => cases h
    next f' rest _ hnode =>
      split at h
      next hrest =>
        cases h
        exact ⟨rest, by rw [Reads, hnode]; rfl, hrest⟩
      next => cases h
  · rintro ⟨rest, hnode, hrest⟩
    obtain ⟨⟨_, _⟩, hnode, rfl⟩ := map_eq_ok hnode
    rw [readWhole, hnode]
    simp only [hrest]

theorem parse_eq_ok_iff_readWhole (h : Bytes.trim s ≠ []) :
    parse s = .ok f ↔ readWhole (Bytes.trim s) = .ok f := by
  rw [parse, if_neg h, mapError_eq_ok_iff]

theorem isSpace_of_isBlank {c : UInt8} (h : isBlank c = true) : Ascii.isSpace c = true := by
  rw [isBlank, Bool.or_eq_true, beq_iff_eq, beq_iff_eq] at h
  rcases h with rfl | rfl <;> rfl

theorem Spelled.ne_nil {n : Node} (h : Spelled n s) : s ≠ [] := by
  cases h with
  | node => simp

/-- The tree of a filter's text decides whether the filter is accepted, and what it is read as. -/
theorem Spelled.parse_eq_ok_iff {n : Node} (h : Spelled n (Bytes.trim s)) :
    parse s = .ok f ↔ n.literals? false = some f := by
  rw [parse_eq_ok_iff_readWhole h.ne_nil, readWhole_eq_ok_iff]
  have hread := h.reads_iff false f []
  rw [List.append_nil] at hread
  constructor
  · rintro ⟨rest, hnode, -⟩
    exact ((hread rest).1 hnode).1
  · exact fun hf => ⟨[], (hread []).2 ⟨hf, rfl⟩, rfl⟩

/-- **A filter is accepted if and only if it is the text of a tree that means something**, and it is
read as what this tree means. -/
theorem parse_eq_ok_iff : parse s = .ok f ↔
    ∃ n, Spelled n (Bytes.trim s) ∧ n.literals? false = some f := by
  constructor
  · intro h
    have hne : Bytes.trim s ≠ [] := fun hnil => by
      rw [parse, if_pos hnil] at h
      cases h
    rw [parse_eq_ok_iff_readWhole hne, readWhole_eq_ok_iff] at h
    obtain ⟨rest, hnode, hrest⟩ := h
    obtain ⟨n, text, hs, spelled, hf⟩ := hnode.exists_spelled
    obtain ⟨gap, hgap, heq⟩ := exists_gap rest
    rw [hrest, List.append_nil] at heq
    -- A trimmed text has no gap at its end.
    have hnil := Bytes.eq_nil_of_trim_eq_append hs fun c hc =>
      isSpace_of_isBlank (hgap c (heq ▸ hc))
    rw [hnil, List.append_nil] at hs
    exact ⟨n, hs ▸ spelled, hf⟩
  · rintro ⟨n, spelled, hf⟩
    exact spelled.parse_eq_ok_iff.2 hf

end Filter

end JavaFloor
