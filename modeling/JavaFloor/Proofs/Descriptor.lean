import JavaFloor.Descriptor
import JavaFloor.Proofs.Slots

/-!
# Who closes a descriptor

Owners are made, reset, closed, moved and dropped in any order. Meanwhile the rest of the program
opens and closes descriptors of its own, so that the number of a closed descriptor may come again
and may be handed to an owner again.

* `DescriptorBank.Allows` says what is asked of an event: a descriptor that is handed to an owner is
  open and has no owner yet, and what owners hold is left open elsewhere.
* `DescriptorBank.step_cases` says what one operation can do: nothing, or the owner in a slot gives
  up what it holds, and then a descriptor is put there or passed on to it from another slot.
* `DescriptorBank.step_emptied`, `step_handed`, `step_passed`, `step_self` and `step_of_ne` say what
  the slots hold after it.
* `Accounted` relates a bank to the descriptors that were handed to its owners: each has one owner
  at most, is open as long as it has one, and is closed as soon as it has none. The lemmas
  `Accounted.give_up`, `Accounted.put` and `Accounted.pass` say that the three changes keep it so,
  and `Accounted.act` that every allowed event does.
* `DescriptorBank.closings_of_run` puts this together for a whole run.
-/

namespace JavaFloor

/-- What happens to descriptors. -/
inductive DescriptorEvent
  /-- An operation on the owner in a slot. An owner that is not there yet, or not any more, is a
  slot that holds nothing. -/
  | perform (slot : Bytes) (op : DescriptorOp)
  /-- The rest of the program opens and closes descriptors; those in `isOpen` are open then. -/
  | elsewhere (isOpen : List Nat)

/-- The descriptor that an operation hands to an owner. -/
def DescriptorOp.handed? : DescriptorOp → Option Nat
  | .adopt d => some d
  | .reset d => d
  | _ => none

/-- The descriptor that is handed to an owner. -/
def DescriptorEvent.handed? : DescriptorEvent → Option Nat
  | .perform _ op => op.handed?
  | .elsewhere _ => none

namespace DescriptorBank

variable {b : DescriptorBank} {slot other : Bytes} {d : Nat} {op : DescriptorOp}

/-- An owner holds the descriptor. -/
def Holds (b : DescriptorBank) (d : Nat) : Prop := ∃ slot, b.slots slot = some d

/-- A descriptor that is handed to an owner is open and no owner holds it. The rest of the program
leaves open what owners hold. -/
def Allows (b : DescriptorBank) : DescriptorEvent → Prop
  | .perform _ op => ∀ d ∈ op.handed?, d ∈ b.table.isOpen ∧ ¬ b.Holds d
  | .elsewhere isOpen => ∀ d, b.Holds d → d ∈ isOpen

/-- The bank after an event. Closings elsewhere are not recorded. -/
def act (b : DescriptorBank) : DescriptorEvent → DescriptorBank
  | .perform slot op => (b.step slot op).2
  | .elsewhere isOpen => { b with table := { b.table with isOpen } }

/-- The bank after events, one after another. -/
def after (b : DescriptorBank) (events : List DescriptorEvent) : DescriptorBank :=
  events.foldl act b

/-- Each of the events is allowed when it comes. -/
def AllowsAll (b : DescriptorBank) : List DescriptorEvent → Prop
  | [] => True
  | event :: events => b.Allows event ∧ (b.act event).AllowsAll events

/-! ## Slots after an operation -/

/-- An owner that is closed, reset or dropped holds nothing. -/
theorem step_emptied (h : op = .close ∨ op = .reset none ∨ op = .drop) :
    (b.step slot op).2.slots slot = none := by
  rcases h with rfl | rfl | rfl <;> simp [step, replace]

/-- An owner holds what it is handed. -/
theorem step_handed (h : op.handed? = some d) : (b.step slot op).2.slots slot = some d := by
  cases op with
  | adopt | reset => simpa [step, replace, DescriptorOp.handed?] using h
  | close | move | construct | drop => cases h

/-- An owner that was moved into another one holds nothing, and the other one what it held. -/
theorem step_passed (hne : other ≠ slot) (h : op = .move other ∨ op = .construct other) :
    (b.step slot op).2.slots other = none ∧ (b.step slot op).2.slots slot = b.slots other := by
  rcases h with rfl | rfl <;> simp [step, take, replace, hne]

/-- An owner that is moved into itself is left as it is. -/
theorem step_self (h : op = .move slot ∨ op = .construct slot) : (b.step slot op).2 = b := by
  rcases h with rfl | rfl
  · rw [step, if_pos rfl]
  · -- nothing is left in the slot when its owner is replaced
    simp [step, take, replace, Owner.close]

/-- No other owner is changed. -/
theorem step_of_ne (hne : other ≠ slot) (hmove : op ≠ .move other)
    (hconstruct : op ≠ .construct other) : (b.step slot op).2.slots other = b.slots other := by
  cases op with
  | adopt | reset | close | drop => simp [step, replace, hne]
  | move source =>
    have hsource : other ≠ source := fun h => hmove (h ▸ rfl)
    by_cases hself : source = slot <;> simp [step, take, replace, hne, hself, hsource]
  | construct source =>
    have hsource : other ≠ source := fun h => hconstruct (h ▸ rfl)
    simp [step, take, replace, hne, hsource]

/-! ## The three changes -/

/-- The owner in a slot gives up what it holds. -/
def giveUp (b : DescriptorBank) (slot : Bytes) : DescriptorBank := b.replace slot none

/-- The owner in a slot holds the descriptor. -/
def put (b : DescriptorBank) (slot : Bytes) (d : Nat) : DescriptorBank :=
  { b with slots := b.slots.set slot (some d) }

/-- What another owner holds is passed on to the owner in a slot. -/
def pass (b : DescriptorBank) (other slot : Bytes) : DescriptorBank :=
  { b with slots := (b.slots.set other none).set slot (b.slots other) }

@[simp]
theorem giveUp_slots (b : DescriptorBank) (slot : Bytes) :
    (b.giveUp slot).slots = b.slots.set slot none := rfl

@[simp]
theorem giveUp_closings (b : DescriptorBank) (slot : Bytes) :
    (b.giveUp slot).table.closings = (b.slots slot).toList ++ b.table.closings := by
  rw [giveUp, replace]
  cases b.slots slot <;> rfl

theorem mem_giveUp_isOpen_iff :
    d ∈ (b.giveUp slot).table.isOpen ↔ d ∈ b.table.isOpen ∧ b.slots slot ≠ some d := by
  rw [giveUp, replace]
  cases b.slots slot with
  | none => exact (and_iff_left nofun).symm
  | some held =>
    change d ∈ b.table.isOpen.filter (· != held) ↔ _
    rw [List.mem_filter, bne_iff_ne, ne_comm, Ne, Ne, Option.some_inj]

theorem holds_put_iff (hslot : b.slots slot = none) {e : Nat} :
    (b.put slot d).Holds e ↔ e = d ∨ b.Holds e := by
  constructor
  · rintro ⟨n, hn⟩
    by_cases hn' : n = slot
    · exact .inl (by simpa [put, hn', eq_comm] using hn)
    · exact .inr ⟨n, by simpa [put, hn'] using hn⟩
  · rintro (rfl | ⟨n, hn⟩)
    · exact ⟨slot, by simp [put]⟩
    · have hne : n ≠ slot := by
        rintro rfl
        simp [hslot] at hn
      exact ⟨n, by simpa [put, hne] using hn⟩

/-- What is passed on changes places with nothing. -/
theorem pass_slots (hslot : b.slots slot = none) (hne : other ≠ slot) :
    (b.pass other slot).slots = b.slots ∘ Equiv.swap slot other :=
  Slots.set_set_eq_swap hslot hne

theorem holds_pass_iff (hslot : b.slots slot = none) (hne : other ≠ slot) :
    (b.pass other slot).Holds d ↔ b.Holds d := by
  rw [Holds, pass_slots hslot hne]
  exact ((Equiv.swap slot other).surjective.exists (p := fun n => b.slots n = some d)).symm

/-- What an owner holds after it is replaced was put there after it gave up what it held. -/
theorem replace_some (b : DescriptorBank) (slot : Bytes) (d : Nat) :
    b.replace slot (some d) = (b.giveUp slot).put slot d := by
  simp [replace, giveUp, put]

/-- What is taken from another owner is passed on after the owner gave up what it held. -/
theorem take_replace (hne : other ≠ slot) :
    (b.take other).2.replace slot (b.take other).1 = (b.giveUp slot).pass other slot := by
  simp [take, replace, giveUp, pass, hne, hne.symm, Slots.set_comm _ hne]

/-- **What an operation can do**: nothing, as an owner is moved onto itself; or the owner gives up
what it holds; or it does so and is then handed a descriptor, or passed on that of another owner. -/
theorem step_cases (b : DescriptorBank) (slot : Bytes) (op : DescriptorOp) :
    (op.handed? = none ∧ (b.step slot op).2 = b) ∨
    (op.handed? = none ∧ (b.step slot op).2 = b.giveUp slot) ∨
    (∃ d, op.handed? = some d ∧ (b.step slot op).2 = (b.giveUp slot).put slot d) ∨
    (∃ other, op.handed? = none ∧ other ≠ slot ∧
      (b.step slot op).2 = (b.giveUp slot).pass other slot) := by
  cases op with
  | adopt d => exact .inr (.inr (.inl ⟨d, rfl, b.replace_some slot d⟩))
  | reset o =>
    cases o with
    | none => exact .inr (.inl ⟨rfl, rfl⟩)
    | some d => exact .inr (.inr (.inl ⟨d, rfl, b.replace_some slot d⟩))
  | close | drop => exact .inr (.inl ⟨rfl, rfl⟩)
  | move other =>
    by_cases hne : other = slot
    · exact .inl ⟨rfl, step_self (.inl (congrArg _ hne))⟩
    · exact .inr (.inr (.inr ⟨other, rfl, hne, by rw [step, if_neg hne, ← take_replace hne]⟩))
  | construct other =>
    by_cases hne : other = slot
    · exact .inl ⟨rfl, step_self (.inr (congrArg _ hne))⟩
    · exact .inr (.inr (.inr ⟨other, rfl, hne, by rw [step, ← take_replace hne]⟩))

end DescriptorBank

/-! ## Owners and closings -/

open DescriptorBank

/-- Since the table was `before`, the descriptors `handed` were handed to owners. Each of them has
one owner at most and is open as long as it has one. It was closed as often as it was handed over,
but once less while it has an owner. -/
structure Accounted (before : Descriptors) (handed : List Nat) (b : DescriptorBank) : Prop where
  unique : ∀ slot slot' d, b.slots slot = some d → b.slots slot' = some d → slot = slot'
  isOpen : ∀ slot d, b.slots slot = some d → d ∈ b.table.isOpen
  held : ∀ d, b.Holds d →
    b.table.closings.count d + 1 = before.closings.count d + handed.count d
  free : ∀ d, ¬ b.Holds d →
    b.table.closings.count d = before.closings.count d + handed.count d

namespace Accounted

variable {before : Descriptors} {handed : List Nat} {b : DescriptorBank} {slot other : Bytes}
  {op : DescriptorOp} {d : Nat}

theorem start (table : Descriptors) : Accounted table [] (.start table) where
  unique := nofun
  isOpen := nofun
  held := nofun
  free := fun _ _ => rfl

/-- A descriptor is held no more if its owner gives it up. -/
theorem holds_giveUp_iff (h : Accounted before handed b) :
    (b.giveUp slot).Holds d ↔ b.Holds d ∧ b.slots slot ≠ some d := by
  constructor
  · rintro ⟨n, hn⟩
    by_cases hslot : n = slot
    · simp [hslot] at hn
    · have hold : b.slots n = some d := by simpa [hslot] using hn
      exact ⟨⟨n, hold⟩, fun heq => hslot (h.unique _ _ _ hold heq)⟩
  · rintro ⟨⟨n, hn⟩, hne⟩
    have hslot : n ≠ slot := by
      rintro rfl
      exact hne hn
    exact ⟨n, by simpa [hslot] using hn⟩

/-- What a slot holds is given up. -/
theorem give_up (h : Accounted before handed b) (slot : Bytes) :
    Accounted before handed (b.giveUp slot) where
  unique n n' d hn hn' := by
    by_cases hslot : n = slot
    · simp [hslot] at hn
    · by_cases hslot' : n' = slot
      · simp [hslot'] at hn'
      · exact h.unique n n' d (by simpa [hslot] using hn) (by simpa [hslot'] using hn')
  isOpen n d hn := by
    obtain ⟨⟨m, hm⟩, hne⟩ := h.holds_giveUp_iff.1 ⟨n, hn⟩
    exact mem_giveUp_isOpen_iff.2 ⟨h.isOpen m d hm, hne⟩
  held d hd := by
    obtain ⟨hold, hne⟩ := h.holds_giveUp_iff.1 hd
    have hzero : (b.slots slot).toList.count d = 0 :=
      List.count_eq_zero.2 (by simpa [Option.mem_toList] using hne)
    rw [giveUp_closings, List.count_append, hzero, Nat.zero_add]
    exact h.held d hold
  free d hd := by
    rw [giveUp_closings, List.count_append]
    by_cases hslot : b.slots slot = some d
    · have hold := h.held d ⟨slot, hslot⟩
      rw [hslot, Option.toList_some, List.count_singleton_self]
      omega
    · have hzero : (b.slots slot).toList.count d = 0 :=
        List.count_eq_zero.2 (by simpa [Option.mem_toList] using hslot)
      rw [hzero, Nat.zero_add]
      exact h.free d fun hold => hd (h.holds_giveUp_iff.2 ⟨hold, hslot⟩)

/-- A descriptor is handed to an owner that holds none. -/
theorem put (h : Accounted before handed b) (hslot : b.slots slot = none)
    (hopen : d ∈ b.table.isOpen) (hfree : ¬ b.Holds d) :
    Accounted before (handed ++ [d]) (b.put slot d) where
  unique n n' e hn hn' := by
    have hold : ∀ {m}, (b.put slot d).slots m = some e → m ≠ slot → b.slots m = some e :=
      fun hm hne => by simpa [DescriptorBank.put, hne] using hm
    have hnew : (b.put slot d).slots slot = some e → ∀ m, b.slots m ≠ some e := by
      rintro heq m hm
      obtain rfl : d = e := by simpa [DescriptorBank.put] using heq
      exact hfree ⟨m, hm⟩
    by_cases hne : n = slot
    · by_cases hne' : n' = slot
      · rw [hne, hne']
      · exact absurd (hold hn' hne') (hnew (hne ▸ hn) n')
    · by_cases hne' : n' = slot
      · exact absurd (hold hn hne) (hnew (hne' ▸ hn') n)
      · exact h.unique n n' e (hold hn hne) (hold hn' hne')
  isOpen n e hn := by
    rcases (holds_put_iff hslot).1 ⟨n, hn⟩ with rfl | ⟨m, hm⟩
    · exact hopen
    · exact h.isOpen m e hm
  held e he := by
    rw [List.count_append]
    rcases (holds_put_iff hslot).1 he with rfl | hold
    · rw [List.count_singleton_self]
      exact congrArg (· + 1) (h.free e hfree)
    · have hne : d ≠ e := fun heq => hfree (heq ▸ hold)
      rw [List.count_singleton, if_neg (by simpa using hne)]
      exact h.held e hold
  free e he := by
    rw [holds_put_iff hslot, not_or] at he
    rw [List.count_append, List.count_singleton, if_neg (by simpa using Ne.symm he.1)]
    exact h.free e he.2

/-- What an owner holds is passed on to one that holds nothing. -/
theorem pass (h : Accounted before handed b) (hslot : b.slots slot = none) (hne : other ≠ slot) :
    Accounted before handed (b.pass other slot) where
  unique n n' d hn hn' := by
    rw [pass_slots hslot hne] at hn hn'
    exact (Equiv.swap slot other).injective (h.unique _ _ d hn hn')
  isOpen n d hn := by
    rw [pass_slots hslot hne] at hn
    exact h.isOpen _ d hn
  held d hd := h.held d ((holds_pass_iff hslot hne).1 hd)
  free d hd := h.free d (mt (holds_pass_iff hslot hne).2 hd)

/-- The rest of the program leaves open what owners hold. -/
theorem elsewhere (h : Accounted before handed b) {isOpen : List Nat}
    (hopen : b.Allows (.elsewhere isOpen)) : Accounted before handed (b.act (.elsewhere isOpen)) :=
  ⟨h.unique, fun slot d hd => hopen d ⟨slot, hd⟩, h.held, h.free⟩

/-- What is handed to an owner is open and held by none, also after the owner gave up what it
held. -/
theorem allows_giveUp (h : Accounted before handed b) (ha : b.Allows (.perform slot op))
    (hd : op.handed? = some d) : d ∈ (b.giveUp slot).table.isOpen ∧ ¬ (b.giveUp slot).Holds d := by
  obtain ⟨hopen, hfree⟩ := ha d hd
  exact ⟨mem_giveUp_isOpen_iff.2 ⟨hopen, fun heq => hfree ⟨slot, heq⟩⟩,
    fun hg => hfree (h.holds_giveUp_iff.1 hg).1⟩

/-- **Every event that is allowed keeps owners and closings in agreement.** -/
theorem act (h : Accounted before handed b) {event : DescriptorEvent} (ha : b.Allows event) :
    Accounted before (handed ++ event.handed?.toList) (b.act event) := by
  cases event with
  | elsewhere isOpen =>
    rw [DescriptorEvent.handed?, Option.toList_none, List.append_nil]
    exact h.elsewhere ha
  | perform slot op =>
    have hgiven := h.give_up slot
    have hempty : (b.giveUp slot).slots slot = none := by simp
    rw [DescriptorEvent.handed?, DescriptorBank.act]
    rcases b.step_cases slot op with
      ⟨hd, hstep⟩ | ⟨hd, hstep⟩ | ⟨d, hd, hstep⟩ | ⟨other, hd, hne, hstep⟩
    · rw [hd, hstep, Option.toList_none, List.append_nil]
      exact h
    · rw [hd, hstep, Option.toList_none, List.append_nil]
      exact hgiven
    · obtain ⟨hopen, hfree⟩ := h.allows_giveUp ha hd
      rw [hd, hstep]
      exact hgiven.put hempty hopen hfree
    · rw [hd, hstep, Option.toList_none, List.append_nil]
      exact hgiven.pass hempty hne

/-- An owner can close what it holds. -/
theorem close_eq_true (h : Accounted before handed b) (slot : Bytes) :
    ((b.slots slot).close b.table).1 = true := by
  cases hslot : b.slots slot with
  | none => rfl
  | some d => exact List.contains_iff_mem.2 (h.isOpen slot d hslot)

/-- **An operation closes the descriptor that loses its owner by it**, and nothing else. That is the
one that the slot's owner held, so that it was open and no other owner held it. It is closed if the
slot's owner holds it no more. -/
theorem closes (h : Accounted before handed b) (ha : b.Allows (.perform slot op)) :
    ∃ closed : Option Nat,
      (b.step slot op).2.table.closings = closed.toList ++ b.table.closings ∧
      (∀ d, d ∈ closed ↔ b.Holds d ∧ ¬ (b.step slot op).2.Holds d) ∧
      (∀ d ∈ closed, d ∈ b.table.isOpen ∧ b.slots slot = some d ∧
        ∀ other, other ≠ slot → b.slots other ≠ some d) ∧
      ∀ d, b.slots slot = some d → (b.step slot op).2.slots slot ≠ some d → closed = some d := by
  have hempty : (b.giveUp slot).slots slot = none := by simp
  have hheld : ∀ d ∈ b.slots slot, d ∈ b.table.isOpen ∧ b.slots slot = some d ∧
      ∀ other, other ≠ slot → b.slots other ≠ some d := fun d hd =>
    ⟨h.isOpen slot d hd, hd, fun other hne ho => hne (h.unique _ _ d ho hd)⟩
  -- What the slot's owner held is lost if it is given up and not handed over again.
  have hlost : ∀ d, d ∈ b.slots slot ↔ b.Holds d ∧ ¬ (b.giveUp slot).Holds d := fun d => by
    rw [h.holds_giveUp_iff, not_and_not_right]
    exact ⟨fun hd => ⟨⟨slot, hd⟩, fun _ => hd⟩, fun hd => hd.2 hd.1⟩
  rcases b.step_cases slot op with
    ⟨-, hstep⟩ | ⟨-, hstep⟩ | ⟨d, hd, hstep⟩ | ⟨other, -, hne, hstep⟩
  · rw [hstep]
    exact ⟨none, rfl, fun d => by simp, nofun, fun d hd hkept => absurd hd hkept⟩
  · rw [hstep]
    exact ⟨b.slots slot, giveUp_closings b slot, hlost, hheld, fun d hd _ => hd⟩
  · refine ⟨b.slots slot, by rw [hstep]; exact giveUp_closings b slot, fun e => ?_, hheld,
      fun d hd _ => hd⟩
    obtain ⟨-, hfree⟩ := ha d hd
    rw [hstep, holds_put_iff hempty, hlost, not_or]
    refine and_congr_right fun he => (and_iff_right ?_).symm
    rintro rfl
    exact hfree he
  · refine ⟨b.slots slot, by rw [hstep]; exact giveUp_closings b slot, fun d => ?_, hheld,
      fun d hd _ => hd⟩
    rw [hstep, holds_pass_iff hempty hne, hlost]

end Accounted

namespace DescriptorBank

/-- Events that are allowed keep owners and closings in agreement. -/
theorem accounted_after {before : Descriptors} {handed : List Nat} {b : DescriptorBank}
    (h : Accounted before handed b) {events : List DescriptorEvent} (ha : b.AllowsAll events) :
    Accounted before (handed ++ events.filterMap DescriptorEvent.handed?) (b.after events) := by
  induction events generalizing b handed with
  | nil =>
    rw [List.filterMap_nil, List.append_nil]
    exact h
  | cons event events ih =>
    have hcons : (event :: events).filterMap DescriptorEvent.handed? =
        event.handed?.toList ++ events.filterMap DescriptorEvent.handed? := by
      rw [List.filterMap_cons]
      cases event.handed? <;> rfl
    rw [hcons, ← List.append_assoc]
    exact ih (h.act ha.1) ha.2

/-- **Every descriptor has one owner, and is closed once, when it has none any more.**

In every run in which each descriptor that is handed to an owner is open and has no owner yet, no
two owners hold the same descriptor, and each one held is open, so that closing it goes well.

An owner holds what it is handed; one that is closed, reset or dropped holds nothing; one that was
moved into another one holds nothing, and the other one what it held; a move of an owner into itself
changes nothing. No other owner is changed.

Each operation closes the descriptor that loses its owner by it, which no other owner holds, and
nothing else; so what an owner held is closed when it is closed, reset, overwritten or dropped. So
each descriptor was closed as often as it was handed to an owner, but once less while it has one;
the rest of the program may open it again in between. -/
theorem closings_of_run (table : Descriptors) (events : List DescriptorEvent)
    (h : (start table).AllowsAll events) :
    let b := (start table).after events
    let handed := events.filterMap DescriptorEvent.handed?
    (∀ slot slot' d, b.slots slot = some d → b.slots slot' = some d → slot = slot') ∧
    (∀ slot d, b.slots slot = some d → d ∈ b.table.isOpen) ∧
    (∀ slot, (b.step slot .close).1 = .closed true) ∧
    (∀ slot op d, (op = .adopt d ∨ op = .reset (some d)) →
      (b.step slot op).2.slots slot = some d) ∧
    (∀ slot op, (op = .close ∨ op = .reset none ∨ op = .drop) →
      (b.step slot op).2.slots slot = none) ∧
    (∀ slot other op, other ≠ slot → (op = .move other ∨ op = .construct other) →
      (b.step slot op).2.slots other = none ∧ (b.step slot op).2.slots slot = b.slots other) ∧
    (∀ slot op, (op = .move slot ∨ op = .construct slot) → (b.step slot op).2 = b) ∧
    (∀ slot other op, other ≠ slot → op ≠ .move other → op ≠ .construct other →
      (b.step slot op).2.slots other = b.slots other) ∧
    (∀ slot op, b.Allows (.perform slot op) → ∃ closed : Option Nat,
      (b.step slot op).2.table.closings = closed.toList ++ b.table.closings ∧
      (∀ d, d ∈ closed ↔ b.Holds d ∧ ¬ (b.step slot op).2.Holds d) ∧
      (∀ d ∈ closed, d ∈ b.table.isOpen ∧ b.slots slot = some d ∧
        ∀ other, other ≠ slot → b.slots other ≠ some d) ∧
      ∀ d, b.slots slot = some d → (b.step slot op).2.slots slot ≠ some d → closed = some d) ∧
    ∀ d,
      (b.Holds d → b.table.closings.count d + 1 = table.closings.count d + handed.count d) ∧
      (¬ b.Holds d → b.table.closings.count d = table.closings.count d + handed.count d) := by
  intro b handed
  have haccount : Accounted table handed b := accounted_after (.start table) h
  refine ⟨haccount.unique, haccount.isOpen, fun slot => congrArg _ (haccount.close_eq_true slot),
    fun slot op d hop => step_handed ?_, fun slot op => step_emptied,
    fun slot other op => step_passed, fun slot op => step_self, fun slot other op => step_of_ne,
    fun slot op => haccount.closes, fun d => ⟨haccount.held d, haccount.free d⟩⟩
  rcases hop with rfl | rfl <;> rfl

/-- A descriptor is closed when its owner is overwritten, is opened again elsewhere under the same
number, and is closed by the owner that it was passed on to after that. Another one is passed on
twice and held in the end; it is closed when that owner is dropped. -/
theorem closings_of_run_opened_again : ∃ (table : Descriptors) (events : List DescriptorEvent),
    (start table).AllowsAll events ∧
    events.filterMap DescriptorEvent.handed? = [3, 4, 4] ∧
    ((start table).after events).table.closings.count 3 = 0 ∧
    ((start table).after events).slots (ascii "c") = some 3 ∧
    (((start table).after events).step (ascii "c") .drop).2.table.closings =
      3 :: ((start table).after events).table.closings ∧
    ((start table).after events).table.closings.count 4 = 2 ∧
    ¬ ((start table).after events).Holds 4 := by
  let table : Descriptors := ⟨[3, 4], 5, []⟩
  let events : List DescriptorEvent :=
    [.perform (ascii "a") (.adopt 3), .perform (ascii "b") (.move (ascii "a")),
      .perform (ascii "c") (.adopt 4), .perform (ascii "c") (.move (ascii "c")),
      .perform (ascii "c") (.construct (ascii "b")), .elsewhere [3, 4],
      .perform (ascii "a") (.reset (some 4)), .perform (ascii "b") (.construct (ascii "a")),
      .perform (ascii "b") .close, .perform (ascii "b") .close, .perform (ascii "a") .drop]
  have hab : ascii "a" ≠ ascii "b" := by decide
  have hac : ascii "a" ≠ ascii "c" := by decide
  have hbc : ascii "b" ≠ ascii "c" := by decide
  have hallowed : (start table).AllowsAll events := by
    simp only [events, table, AllowsAll, Allows, DescriptorOp.handed?, Holds, act, start]
    simp [step, replace, take, Slots.set, Descriptors.close, hab, hac, hbc, hab.symm, hbc.symm]
    refine ⟨fun d n => ?_, fun n => ?_⟩
    · split_ifs <;> simp +contextual [eq_comm]
    · split_ifs <;> simp
  obtain ⟨-, -, -, -, hempties, -, -, -, hcloses, hcount⟩ := closings_of_run table events hallowed
  have hslot : ((start table).after events).slots (ascii "c") = some 3 := by decide +kernel
  have hfree : ¬ ((start table).after events).Holds 4 := by
    rintro ⟨n, hn⟩
    simp [events, after, act, start, step, replace, take, Slots.set, hab, hac, hbc, hab.symm,
      hbc.symm] at hn
    split_ifs at hn <;> simp at hn
  obtain ⟨closed, hclosings, -, -, hlost⟩ := hcloses (ascii "c") .drop nofun
  have hempty := hempties (ascii "c") .drop (.inr (.inr rfl))
  obtain rfl : closed = some 3 := hlost 3 hslot (by rw [hempty]; nofun)
  refine ⟨table, events, hallowed, rfl, ?_, hslot, hclosings, (hcount 4).2 hfree, hfree⟩
  exact Nat.succ.inj ((hcount 3).1 ⟨ascii "c", hslot⟩)

end DescriptorBank

end JavaFloor
