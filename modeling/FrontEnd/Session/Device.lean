/-!
# Output devices

An output *device* keeps the bytes written to it, in order. It may have a capacity; a write that
goes beyond it still fills the device up, and then fails.

## Main definitions

* `FrontEnd.Session.Fault` — what can end a session early.
* `FrontEnd.Session.Device` — a device with what it holds.
* `FrontEnd.Session.Device.write` — writes bytes to a device.
* `FrontEnd.Session.say` — writes a text to a device.

## Main results

* `FrontEnd.Session.Device.run_write_of_eq_none`, `FrontEnd.Session.Device.run_write_of_le`,
  `FrontEnd.Session.Device.run_write_of_lt` — what a write does, without a limit, with room for all
  bytes and without.
-/

namespace FrontEnd.Session

/-- What can end a session early. -/
inductive Fault where
  /-- A line of the input is not text in UTF-8. -/
  | notText
  /-- The device takes no more bytes. -/
  | deviceFull
  deriving DecidableEq, Repr

/-- The fault in words. -/
def Fault.message : Fault → String
  | .notText => "stream did not contain valid UTF-8"
  | .deviceFull => "failed to write whole buffer"

/-- An output device. -/
structure Device where
  /-- How many bytes it takes in all, `none` if there is no limit. -/
  capacity : Option Nat
  /-- The bytes written so far. -/
  written : ByteArray

namespace Device

/-- A device that holds nothing yet. -/
def ofCapacity (capacity : Option Nat) : Device :=
  ⟨capacity, ByteArray.empty⟩

/-- Adds bytes to what is written. -/
def append (d : Device) (bytes : ByteArray) : Device :=
  { d with written := d.written ++ bytes }

/-- Writes bytes. If there is no room for all of them, those for which there is are written before
the write fails. -/
def write (bytes : ByteArray) : EStateM Fault Device Unit := fun d =>
  match d.capacity with
  | none => .ok () (d.append bytes)
  | some capacity =>
    let room := capacity - d.written.size
    if bytes.size ≤ room then .ok () (d.append bytes)
    else .error .deviceFull (d.append (bytes.extract 0 room))

theorem append_empty (d : Device) : d.append ByteArray.empty = d :=
  congrArg (Device.mk d.capacity) ByteArray.append_empty

theorem append_append (d : Device) (a b : ByteArray) : (d.append a).append b = d.append (a ++ b) :=
  congrArg (Device.mk d.capacity) ByteArray.append_assoc

theorem size_written_append (d : Device) (a : ByteArray) :
    (d.append a).written.size = d.written.size + a.size :=
  ByteArray.size_append

theorem written_ofCapacity_append (capacity : Option Nat) (bytes : ByteArray) :
    ((ofCapacity capacity).append bytes).written = bytes :=
  ByteArray.empty_append

/-- On a device without a limit all bytes are written. -/
theorem run_write_of_eq_none {d : Device} (hd : d.capacity = none) (bytes : ByteArray) :
    (write bytes).run d = .ok () (d.append bytes) := by
  simp only [EStateM.run, write, hd]

/-- Bytes for which there is room are written. -/
theorem run_write_of_le {d : Device} {capacity : Nat} (hd : d.capacity = some capacity)
    {bytes : ByteArray} (h : bytes.size ≤ capacity - d.written.size) :
    (write bytes).run d = .ok () (d.append bytes) := by
  simp only [EStateM.run, write, hd, if_pos h]

/-- Bytes for which there is no room fill the device, and the write fails. -/
theorem run_write_of_lt {d : Device} {capacity : Nat} (hd : d.capacity = some capacity)
    {bytes : ByteArray} (h : capacity - d.written.size < bytes.size) :
    (write bytes).run d =
      .error .deviceFull (d.append (bytes.extract 0 (capacity - d.written.size))) := by
  simp only [EStateM.run, write, hd, if_neg (Nat.not_le.mpr h)]

end Device

/-- Writes a text in UTF-8. -/
def say (text : String) : EStateM Fault Device Unit :=
  Device.write text.toUTF8

end FrontEnd.Session
