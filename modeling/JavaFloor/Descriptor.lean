import JavaFloor.Slots

/-!
# Owned descriptors

A descriptor table tells which descriptors are open and keeps a record of the closings. An owner
holds at most one descriptor and closes it when it is closed, overwritten or dropped.

* `Descriptors.close` closes a descriptor and tells whether it was open.
* `DescriptorBank.step` performs one operation on owners in named slots and says what it answers.
-/

namespace JavaFloor

/-- The open descriptors, the number of the next one, and all closings so far, the last one
first. -/
structure Descriptors where
  isOpen : List Nat
  next : Nat
  closings : List Nat
  deriving DecidableEq

namespace Descriptors

/-- No descriptor is open. -/
def empty : Descriptors := ⟨[], 0, []⟩

/-- Opens a descriptor that was never open before. -/
def create (t : Descriptors) : Nat × Descriptors :=
  (t.next, { t with isOpen := t.next :: t.isOpen, next := t.next + 1 })

/-- Closes a descriptor and tells whether it was open. -/
def close (t : Descriptors) (d : Nat) : Bool × Descriptors :=
  (t.isOpen.contains d,
    { t with isOpen := t.isOpen.filter (· != d), closings := d :: t.closings })

end Descriptors

/-- A descriptor held, or none. -/
abbrev Owner := Option Nat

namespace Owner

/-- Closes the descriptor that is held and tells whether that went well. Nothing to close is
well. -/
def close (o : Owner) (t : Descriptors) : Bool × Descriptors :=
  match o with
  | some d => t.close d
  | none => (true, t)

@[simp]
theorem close_none (t : Descriptors) : close none t = (true, t) := rfl

@[simp]
theorem close_some (d : Nat) (t : Descriptors) : close (some d) t = t.close d := rfl

end Owner

/-- An operation on the owner in a slot. -/
inductive DescriptorOp
  /-- Moves a new owner of the descriptor into the slot. -/
  | adopt (d : Nat)
  /-- Hands the slot's owner another descriptor, or none. -/
  | reset (d : Option Nat)
  | close
  /-- Moves the owner of another slot into the slot. -/
  | move (other : Bytes)
  /-- Moves the owner of a slot, which may be this one, into a new owner, and that into the slot. -/
  | construct (other : Bytes)
  /-- Puts a new owner of nothing into the slot. -/
  | drop
  deriving DecidableEq

/-- What an operation answers. -/
inductive DescriptorReply
  | done
  | closed (well : Bool)
  /-- Whether the owner moved from still holds a descriptor. -/
  | moved (valid : Bool)
  deriving DecidableEq

/-- A descriptor table and the owners in the slots. -/
structure DescriptorBank where
  table : Descriptors
  slots : Slots Owner

namespace DescriptorBank

/-- No owner holds a descriptor. -/
def start (table : Descriptors) : DescriptorBank := ⟨table, fun _ => none⟩

/-- Closes what a slot's owner holds and lets it hold `o`. -/
def replace (b : DescriptorBank) (slot : Bytes) (o : Owner) : DescriptorBank :=
  ⟨((b.slots slot).close b.table).2, b.slots.set slot o⟩

/-- Takes the descriptor out of a slot. -/
def take (b : DescriptorBank) (slot : Bytes) : Owner × DescriptorBank :=
  (b.slots slot, { b with slots := b.slots.set slot none })

/-- Performs an operation on the owner in a slot. -/
def step (b : DescriptorBank) (slot : Bytes) : DescriptorOp → DescriptorReply × DescriptorBank
  | .adopt d => (.done, b.replace slot (some d))
  | .reset d => (.done, b.replace slot d)
  | .close => (.closed ((b.slots slot).close b.table).1, b.replace slot none)
  | .move other =>
    if other = slot then (.moved (b.slots slot).isSome, b)
    else
      let (o, b) := b.take other
      (.moved false, b.replace slot o)
  | .construct other =>
    let (o, b) := b.take other
    (.moved false, b.replace slot o)
  | .drop => (.done, b.replace slot none)

end DescriptorBank

end JavaFloor
