import FrontEnd.Proofs.Transcript

/-!
# Sessions on a device with a capacity

A device of limited capacity takes what a session writes until it is full, and the write that goes
beyond ends the session. So it holds the beginning of what the session writes on a device without a
limit, and the session ends as it would have ended there unless it had more to write.

Two writes one after the other do the same as one write of all their bytes, on every device: the
second is made only if there was room for the first. Therefore a session does the same as a single
write of all its text, followed by its ending, and it does not matter into which writes the text is
cut.

## Main definitions

* `FrontEnd.Session.sayEach` — writes texts one after the other.
* `FrontEnd.Session.course` — all that a session says over some lines, and how it ends.
* `FrontEnd.Session.answerWrites`, `FrontEnd.Session.startByWrites` — a session that makes a write
  of its own for every part of an answer.

## Main results

* `FrontEnd.Session.Device.write_append` — two writes are one.
* `FrontEnd.Session.serve_eq_say` — a session is one write.
* `FrontEnd.Session.startByWrites_eq` — however it is cut.
* `FrontEnd.Session.run_some_eq_truncated` — a full device only truncates.
-/

namespace FrontEnd.Session

/-! ### Writes one after the other -/

/-- The bytes for which there is room, of two sequences of bytes of which the first has room. -/
theorem extract_append_of_size_le {a b : ByteArray} {room : Nat} (h : a.size ≤ room) :
    (a ++ b).extract 0 room = a ++ b.extract 0 (room - a.size) := by
  have ha : a.extract 0 room = a := by
    rw [← Nat.max_eq_left h, ByteArray.extract_zero_max_size]
  rw [ByteArray.extract_append, ha, Nat.zero_sub]

/-- The bytes for which there is room, of two sequences of bytes of which the first has none. -/
theorem extract_append_of_lt_size {a b : ByteArray} {room : Nat} (h : room < a.size) :
    (a ++ b).extract 0 room = a.extract 0 room := by
  have hb : b.extract 0 (room - a.size) = ByteArray.empty := by
    rw [Nat.sub_eq_zero_of_le h.le, ByteArray.extract_same]
  rw [ByteArray.extract_append, Nat.zero_sub, hb, ByteArray.append_empty]

namespace Device

/-- Two writes one after the other do the same as one write of all the bytes. -/
theorem write_append (a b : ByteArray) : write (a ++ b) = (do write a; write b) := by
  funext d
  change (write (a ++ b)).run d = (write a >>= fun _ => write b).run d
  rw [EStateM.run_bind]
  cases hd : d.capacity with
  | none =>
    have hd' : (d.append a).capacity = none := hd
    simp only [run_write_of_eq_none hd, run_write_of_eq_none hd', append_append]
  | some capacity =>
    have hd' : (d.append a).capacity = some capacity := hd
    have hroom : capacity - (d.append a).written.size = capacity - d.written.size - a.size := by
      rw [size_written_append, Nat.sub_add_eq]
    have hsize : (a ++ b).size = a.size + b.size := ByteArray.size_append
    by_cases ha : a.size ≤ capacity - d.written.size
    · rw [run_write_of_le hd ha]
      by_cases hb : b.size ≤ capacity - d.written.size - a.size
      · rw [run_write_of_le hd (by omega)]
        simp only [run_write_of_le hd' (hroom ▸ hb), append_append]
      · rw [run_write_of_lt hd (by omega), extract_append_of_size_le ha]
        simp only [run_write_of_lt hd' (hroom ▸ Nat.not_le.mp hb), hroom, append_append]
    · rw [run_write_of_lt hd (by omega), run_write_of_lt hd (Nat.not_le.mp ha),
        extract_append_of_lt_size (Nat.not_le.mp ha)]

end Device

theorem say_append (s t : String) : say (s ++ t) = (do say s; say t) := by
  rw [say, Text.toUTF8_append, Device.write_append]
  rfl

/-- To say nothing is to do nothing, even on a full device. -/
theorem say_empty : say "" = pure () := by
  funext d
  have hempty : d.append "".toUTF8 = d := d.append_empty
  change (Device.write "".toUTF8).run d = .ok () d
  cases hd : d.capacity with
  | none => rw [Device.run_write_of_eq_none hd, hempty]
  | some capacity => rw [Device.run_write_of_le hd (Nat.zero_le _), hempty]

/-- Says texts one after the other, each in a write of its own. -/
def sayEach : List String → EStateM Fault Device Unit
  | [] => pure ()
  | text :: texts => do
    say text
    sayEach texts

/-- It does not matter into which writes a text is cut. -/
theorem sayEach_eq (texts : List String) : sayEach texts = say (String.join texts) := by
  induction texts with
  | nil => exact say_empty.symm
  | cons text texts ih => rw [sayEach, ih, String.join_cons, say_append]

/-! ### A session is one write -/

/-- Ends a session, early if there is a fault. -/
def conclude : Option Fault → EStateM Fault Device Unit
  | none => pure ()
  | some fault => throw fault

/-- All that a session says over some lines after its first prompt, and the fault that ends it if
there is one. -/
def course (config : Config) : List ByteArray → String × Option Fault
  | [] => (farewell, none)
  | line :: lines =>
    match reply line with
    | .error fault => ("", some fault)
    | .ok answer =>
      (answer ++ (config.prompt ++ (course config lines).1), (course config lines).2)

/-- A session says all that it has to say, and then ends. -/
theorem serve_eq_say (config : Config) (lines : List ByteArray) :
    serve config lines = (do say (course config lines).1; conclude (course config lines).2) := by
  induction lines with
  | nil => exact (bind_pure _).symm
  | cons line lines ih =>
    rw [serve, course]
    cases reply line with
    | error fault => rw [say_empty, pure_bind, conclude]
    | ok answer => simp only [ih, say_append, bind_assoc]

/-- A reply fails only on a line that is not text. -/
theorem reply_ne_deviceFull (line : ByteArray) : reply line ≠ .error .deviceFull := by
  unfold reply
  split <;> simp

/-- What is said does not tell whether the device is full. -/
theorem course_ne_deviceFull (config : Config) (lines : List ByteArray) :
    (course config lines).2 ≠ some .deviceFull := by
  induction lines with
  | nil => simp [course]
  | cons line lines ih =>
    rw [course]
    cases hline : reply line with
    | error fault =>
      rintro h
      exact reply_ne_deviceFull line (hline.trans (congrArg _ (Option.some.inj h)))
    | ok answer => exact ih

/-- All that a session says over an input, from its first prompt on. -/
def speech (config : Config) (input : ByteArray) : String :=
  config.prompt ++ (course config (Text.linesOf input)).1

/-- The fault that ends a session over an input on a device without a limit, if there is one. -/
def ending (config : Config) (input : ByteArray) : Option Fault :=
  (course config (Text.linesOf input)).2

theorem start_eq_say (config : Config) (input : ByteArray) :
    start config input = (do say (speech config input); conclude (ending config input)) := by
  rw [start, serve_eq_say, speech, say_append, bind_assoc]
  rfl

/-- A session whose device takes all that it says. -/
theorem run_of_run_say {config : Config} {input : ByteArray} {capacity : Option Nat}
    (h : (say (speech config input)).run (.ofCapacity capacity) =
      .ok () ((Device.ofCapacity capacity).append (speech config input).toUTF8)) :
    run config capacity input = ⟨(speech config input).toUTF8, ending config input⟩ := by
  have hwritten := Device.written_ofCapacity_append capacity (speech config input).toUTF8
  rw [run, start_eq_say, EStateM.run_bind, h]
  cases ending config input with
  | none => exact congrArg (Outcome.mk · none) hwritten
  | some fault => exact congrArg (Outcome.mk · (some fault)) hwritten

/-- A session on a device without a limit. -/
theorem run_none (config : Config) (input : ByteArray) :
    run config none input = ⟨(speech config input).toUTF8, ending config input⟩ :=
  run_of_run_say (run_say rfl _)

/-- A session on a device that has room for all of it. -/
theorem run_some_of_le (config : Config) (input : ByteArray) {n : Nat}
    (h : (speech config input).toUTF8.size ≤ n) :
    run config (some n) input = ⟨(speech config input).toUTF8, ending config input⟩ :=
  run_of_run_say (Device.run_write_of_le rfl h)

/-- A session on a device that has no room for all of it. -/
theorem run_some_of_lt (config : Config) (input : ByteArray) {n : Nat}
    (h : n < (speech config input).toUTF8.size) :
    run config (some n) input =
      ⟨(speech config input).toUTF8.extract 0 n, some .deviceFull⟩ := by
  have hsay : (say (speech config input)).run (.ofCapacity (some n)) =
      .error .deviceFull
        ((Device.ofCapacity (some n)).append ((speech config input).toUTF8.extract 0 n)) :=
    Device.run_write_of_lt rfl h
  rw [run, start_eq_say, EStateM.run_bind, hsay]
  exact congrArg (Outcome.mk · (some .deviceFull)) (Device.written_ofCapacity_append _ _)

/-! ### A session that writes the parts of an answer one by one -/

/-- The parts of the answer to a line: its canonical form and a line feed, or the heading and for
each error a tab, the message and a line feed. -/
def answerWrites (line : String) : List String :=
  match canonical line with
  | .ok rendering => [rendering, "\n"]
  | .error errors => "Parser errors:\n" :: errors.flatMap fun e => ["\t", e.message, "\n"]

theorem join_answerWrites (line : String) : String.join (answerWrites line) = response line := by
  unfold answerWrites response
  cases canonical line with
  | ok rendering => simp
  | error errors =>
    simp only [errorReport, String.join_cons]
    congr 1
    induction errors with
    | nil => rfl
    | cons e errors ih => simp [ih, String.append_assoc]

/-- Answers lines as `serve` does, with a write of its own for each part of an answer and for each
line of the farewell. -/
def serveByWrites (config : Config) : List ByteArray → EStateM Fault Device Unit
  | [] => sayEach ["\n", "Exiting...\n"]
  | line :: lines => do
    match String.fromUTF8? line with
    | none => throw .notText
    | some text =>
      sayEach (answerWrites text)
      say config.prompt
      serveByWrites config lines

/-- A session over an input that writes the parts of what it says one by one. -/
def startByWrites (config : Config) (input : ByteArray) : EStateM Fault Device Unit := do
  say config.prompt
  serveByWrites config (Text.linesOf input)

theorem serveByWrites_eq (config : Config) (lines : List ByteArray) :
    serveByWrites config lines = serve config lines := by
  induction lines with
  | nil => exact sayEach_eq _
  | cons line lines ih =>
    rw [serveByWrites, serve, reply]
    cases String.fromUTF8? line with
    | none => rfl
    | some text => simp only [ih, sayEach_eq, join_answerWrites]

/-- It does not matter that a session writes what it says part by part. -/
theorem startByWrites_eq (config : Config) (input : ByteArray) :
    startByWrites config input = start config input := by
  rw [startByWrites, start, serveByWrites_eq]

/-! ### A full device only truncates -/

/-- **A full device only truncates.** A session on a device that takes `n` bytes leaves the first
`n` bytes of what it leaves on a device without a limit, or all of them if there are fewer. It ends
with a full device if and only if there are more, and otherwise as it ends without a limit, which is
at the end of the input or at a line that is not text. This is so wherever the limit is met, since a
session that makes a write of its own for each part of each answer is the same one. -/
theorem run_some_eq_truncated (config : Config) (input : ByteArray) (n : Nat) :
    (run config (some n) input).output = (run config none input).output.extract 0 n ∧
    ((run config (some n) input).fault = some .deviceFull ↔
      n < (run config none input).output.size) ∧
    ((run config none input).output.size ≤ n →
      (run config (some n) input).fault = (run config none input).fault) ∧
    ((run config none input).fault = none ∨ (run config none input).fault = some .notText) ∧
    startByWrites config input = start config input := by
  have hne : ending config input ≠ some .deviceFull := course_ne_deviceFull config _
  have hending : ending config input = none ∨ ending config input = some .notText := by
    cases hfault : ending config input with
    | none => exact .inl rfl
    | some fault =>
      cases fault with
      | notText => exact .inr rfl
      | deviceFull => exact absurd hfault hne
  rw [run_none]
  refine ⟨?_, ?_, fun hle => ?_, hending, startByWrites_eq config input⟩
  · rcases Nat.lt_or_ge n (speech config input).toUTF8.size with hlt | hle
    · rw [run_some_of_lt config input hlt]
    · rw [run_some_of_le config input hle]
      dsimp only
      rw [← Nat.max_eq_left hle, ByteArray.extract_zero_max_size]
  · constructor
    · intro hfull
      by_contra hle
      rw [run_some_of_le config input (Nat.not_lt.mp hle)] at hfull
      exact hne hfull
    · intro hlt
      rw [run_some_of_lt config input hlt]
  · rw [run_some_of_le config input hle]

/-- A limit inside the message of an error ends a session that would have met a line that is not
text, and a limit at the last byte does not. -/
theorem run_some_eq_truncated_notText :
    (run .standard (some 29) [41, 10, 255].toByteArray).output =
        ">> Parser errors:\n\tno prefix ".toUTF8 ∧
      (run .standard (some 29) [41, 10, 255].toByteArray).fault = some .deviceFull ∧
      (run .standard (some 64) [41, 10, 255].toByteArray).fault = some .notText := by
  have hspeech : speech .standard [41, 10, 255].toByteArray =
      ">> Parser errors:\n\tno prefix parse function for RPAREN found\n>> " := by decide +kernel
  have hending : ending .standard [41, 10, 255].toByteArray = some .notText := by decide +kernel
  have hrun : run .standard none [41, 10, 255].toByteArray =
      ⟨">> Parser errors:\n\tno prefix parse function for RPAREN found\n>> ".toUTF8,
        some .notText⟩ := by
    rw [run_none, hspeech, hending]
  have hcut := run_some_eq_truncated .standard [41, 10, 255].toByteArray 29
  have hwhole := run_some_eq_truncated .standard [41, 10, 255].toByteArray 64
  rw [hrun] at hcut hwhole
  refine ⟨hcut.1.trans (by decide +kernel), hcut.2.1.mpr (by decide +kernel), ?_⟩
  exact hwhole.2.2.1 (by decide +kernel)

end FrontEnd.Session
