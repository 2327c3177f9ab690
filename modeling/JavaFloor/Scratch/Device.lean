import JavaFloor.Bytes

/-!
# Devices

A file is written and closed by the system, which may take only a part of what it is given, or fail.

* `Device` says what the system answers. Everything above it holds for every device.
* `Device.writeOn` writes all of some data, as many bytes at a time as the system takes.
* `Device.Works` is a device on which nothing fails.
-/

namespace JavaFloor

/-- What the system does with a file of a given size. An interrupted write is made again, so that no
interruption is seen here. -/
structure Device where
  /-- What a write of some data at the end does: it takes so many bytes behind the first one, or it
  fails, for a reason. -/
  write : Nat → Bytes → Except Bytes Nat
  /-- Whether closing goes well. -/
  close : Nat → Bool

namespace Device

/-- The device that takes whatever it is given. -/
def reliable : Device := ⟨fun _ data => .ok data.length, fun _ => true⟩

/-- Writes data behind the bytes `front`, given the last one first, to a file that has the given
size. What stands in the file then is given in the same way, with the reason why no more was
written, if that is so. -/
def writeOn (d : Device) (size : Nat) (front : Bytes) : Bytes → Bytes × Option Bytes
  | [] => (front, none)
  | c :: data =>
    match d.write size (c :: data) with
    | .error reason => (front, some reason)
    | .ok more =>
      let part := c :: data.take more
      d.writeOn (size + part.length) (part.reverse ++ front) (data.drop more)
termination_by data => data.length
decreasing_by
  rw [List.length_drop, List.length_cons]
  exact Nat.lt_succ_of_le (Nat.sub_le _ _)

/-- Nothing that is written or closed fails. -/
structure Works (d : Device) : Prop where
  write : ∀ size data, ∃ more, d.write size data = .ok more
  close : ∀ size, d.close size = true

theorem works_reliable : reliable.Works := ⟨fun _ data => ⟨data.length, rfl⟩, fun _ => rfl⟩

end Device

end JavaFloor
