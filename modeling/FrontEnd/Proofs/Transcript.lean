import FrontEnd.Proofs.Lines
import FrontEnd.Proofs.SameTokens
import FrontEnd.Session.Basic

/-!
# The transcript of a session

A session writes its prompt, then for every line the answer to the line and the prompt again, and at
the end of the input its last words. Each answer depends on its own line alone. The first line that
is not text ends the session with nothing more written. On a device without a limit these are the
only two ways in which a session can go.

A carriage return at the end of a line is a blank like others, and changes neither whether the line
is text nor what is answered. So a session does not notice whether its lines end with a line feed
alone or with a carriage return in front of it.

## Main definitions

* `FrontEnd.Text.encoded` — the bytes of a text.
* `FrontEnd.Session.answerLines`, `FrontEnd.Session.answerTo` — the answer to a line, by its own
  lines.
* `FrontEnd.Session.exchange` — what a session writes for some lines, from the first prompt on.

## Main results

* `FrontEnd.Session.response_eq` — the answer that is written.
* `FrontEnd.Session.run_serve_append` — a session answers line by line.
* `FrontEnd.Session.reply_append_return` — a carriage return at the end of a line does not matter.
* `FrontEnd.Session.run_eq_transcript` — the transcript of a session.
-/

namespace FrontEnd

/-! ### Texts and their bytes -/

namespace Text

/-- The bytes of a text in UTF-8. -/
def encoded (text : String) : List UInt8 :=
  text.toUTF8.data.toList

theorem toByteArray_encoded (text : String) : (encoded text).toByteArray = text.toUTF8 := by
  rw [ByteArray.ext_iff, List.data_toByteArray, encoded, Array.toArray_toList]

/-- The bytes of a text are read as this text. -/
theorem fromUTF8?_toUTF8 (text : String) : String.fromUTF8? text.toUTF8 = some text := by
  have hvalid : text.toUTF8.IsValidUTF8 := text.isValidUTF8
  rw [String.fromUTF8?, dif_pos hvalid]
  rfl

theorem fromUTF8?_eq_none {bytes : ByteArray} (h : ¬ bytes.IsValidUTF8) :
    String.fromUTF8? bytes = none := by
  rw [String.fromUTF8?, dif_neg h]

theorem encoded_injective : Function.Injective encoded := by
  intro s t h
  have hbytes : s.toUTF8 = t.toUTF8 := by rw [← toByteArray_encoded, h, toByteArray_encoded]
  exact Option.some.inj (by rw [← fromUTF8?_toUTF8, hbytes, fromUTF8?_toUTF8])

/-- The bytes that are text are the bytes of a text. -/
theorem exists_encoded {l : List UInt8} (h : l.toByteArray.IsValidUTF8) :
    ∃ text, l = encoded text := by
  refine ⟨String.fromUTF8 l.toByteArray h, ?_⟩
  rw [← List.toByteArray_inj, toByteArray_encoded]
  rfl

theorem exists_map_encoded {ls : List (List UInt8)} (h : ∀ l ∈ ls, l.toByteArray.IsValidUTF8) :
    ∃ texts : List String, ls = texts.map encoded := by
  induction ls with
  | nil => exact ⟨[], rfl⟩
  | cons l ls ih =>
    obtain ⟨text, rfl⟩ := exists_encoded (h _ List.mem_cons_self)
    obtain ⟨texts, rfl⟩ := ih fun l hl => h l (List.mem_cons_of_mem _ hl)
    exact ⟨text :: texts, rfl⟩

theorem map_toByteArray_encoded (texts : List String) :
    (texts.map encoded).map List.toByteArray = texts.map String.toUTF8 := by
  simp only [List.map_map, Function.comp_def, toByteArray_encoded]

theorem toUTF8_append (s t : String) : (s ++ t).toUTF8 = s.toUTF8 ++ t.toUTF8 := by
  simp only [String.toUTF8_eq_toByteArray, String.toByteArray_append]

theorem encoded_append_return (text : String) :
    encoded text ++ [carriageReturn] = encoded (text ++ "\r") := by
  rw [encoded, encoded, toUTF8_append, ByteArray.toList_data_append]
  rfl

/-- A carriage return begins a character of its own, so bytes are text if they are text with one at
the end. -/
theorem isValidUTF8_of_append_return {l : List UInt8}
    (h : (l ++ [carriageReturn]).toByteArray.IsValidUTF8) : l.toByteArray.IsValidUTF8 := by
  let text := String.fromUTF8 _ h
  let place : String.Pos.Raw := ⟨l.length⟩
  have hbytes : text.toByteArray = (l ++ [carriageReturn]).toByteArray := rfl
  have hlt : place < text.rawEndPos := by
    rw [String.Pos.Raw.lt_iff, String.byteIdx_rawEndPos, ← String.size_toByteArray, hbytes]
    simp [place]
  have hbyte : text.getUTF8Byte place hlt = carriageReturn := by
    simp only [String.getUTF8Byte, hbytes, List.getElem_toByteArray]
    exact List.getElem_concat_length rfl _
  have hplace : place.IsValid text := by
    rw [String.Pos.Raw.isValid_iff_isUTF8FirstByte]
    exact .inr ⟨hlt, hbyte ▸ .inl (by decide)⟩
  have hextract := hplace.isValidUTF8_extract_zero
  rwa [hbytes, List.toByteArray_append, ByteArray.extract_append_eq_left (by simp [place])]
    at hextract

end Text

namespace Session

/-! ### Answers -/

/-- The lines of the answer to a line: its canonical form, or a heading and the messages of the
errors in order, each after a tab. -/
def answerLines (line : String) : List String :=
  if (parse line).errors = [] then [(parse line).program.render]
  else "Parser errors:" :: (parse line).errors.map fun e => "\t" ++ e.message

/-- The answer to a line: its lines, each followed by a line feed. -/
def answerTo (line : String) : String :=
  String.join ((answerLines line).map (· ++ "\n"))

/-- What a session writes for some lines: the prompt, and after each answer the prompt again. -/
def exchange (config : Config) (texts : List String) : String :=
  config.prompt ++ String.join (texts.map fun text => answerTo text ++ config.prompt)

theorem response_eq (line : String) : response line = answerTo line := by
  unfold response canonical answerTo answerLines
  by_cases herrors : (parse line).errors = []
  · simp [herrors]
  · simp [herrors, errorReport, Function.comp_def]

/-- A carriage return at the end of a line is a blank, and is not seen. -/
theorem response_append_return (line : String) : response (line ++ "\r") = response line := by
  have hlex : lex (line.toList ++ ['\r']) = lex line.toList := by
    rw [lex_append_cons_of_isBlank (by decide), lex_nil, List.append_nil]
  have htokens : tokenize (line ++ "\r") = tokenize line := by
    rw [tokenize_eq, tokenize_eq, String.toList_append]
    exact congrArg (· ++ [Token.eof]) hlex
  rw [response_eq, response_eq, answerTo, answerTo, answerLines, answerLines,
    parse_eq_of_tokenize_eq htokens]

theorem reply_toUTF8 (text : String) : reply text.toUTF8 = .ok (response text) := by
  rw [reply, Text.fromUTF8?_toUTF8]

theorem reply_of_not_isValidUTF8 {line : ByteArray} (h : ¬ line.IsValidUTF8) :
    reply line = .error .notText := by
  rw [reply, Text.fromUTF8?_eq_none h]

/-- A carriage return at the end of a line changes nothing about the reply to it. -/
theorem reply_append_return (l : List UInt8) :
    reply (l ++ [Text.carriageReturn]).toByteArray = reply l.toByteArray := by
  by_cases hl : l.toByteArray.IsValidUTF8
  · obtain ⟨text, rfl⟩ := Text.exists_encoded hl
    rw [Text.encoded_append_return, Text.toByteArray_encoded, Text.toByteArray_encoded,
      reply_toUTF8, reply_toUTF8, response_append_return]
  · rw [reply_of_not_isValidUTF8 hl,
      reply_of_not_isValidUTF8 fun h => hl (Text.isValidUTF8_of_append_return h)]

/-! ### Sessions on a device without a limit -/

theorem append_toUTF8_append (d : Device) (s t : String) :
    (d.append s.toUTF8).append t.toUTF8 = d.append (s ++ t).toUTF8 := by
  rw [Text.toUTF8_append, Device.append_append]

/-- What is said on a device without a limit is written. -/
theorem run_say {d : Device} (hd : d.capacity = none) (text : String) :
    (say text).run d = .ok () (d.append text.toUTF8) :=
  Device.run_write_of_eq_none hd text.toUTF8

theorem run_say_bind {d : Device} (hd : d.capacity = none) (text : String)
    (next : Unit → EStateM Fault Device Unit) :
    (say text >>= next).run d = (next ()).run (d.append text.toUTF8) := by
  rw [EStateM.run_bind, run_say hd]

/-- Lines that are text are answered one after the other, and then the session goes on. -/
theorem run_serve_append (config : Config) (texts : List String) (lines : List ByteArray)
    {d : Device} (hd : d.capacity = none) :
    (serve config (texts.map String.toUTF8 ++ lines)).run d =
      (serve config lines).run
        (d.append (String.join (texts.map fun text => answerTo text ++ config.prompt)).toUTF8) := by
  induction texts generalizing d with
  | nil =>
    have hempty : d.append "".toUTF8 = d := d.append_empty
    exact congrArg (serve config lines).run hempty.symm
  | cons text texts ih =>
    rw [List.map_cons, List.cons_append, serve, reply_toUTF8, response_eq]
    have hnext (bytes : ByteArray) : (d.append bytes).capacity = none := hd
    dsimp only
    rw [run_say_bind hd, run_say_bind (hnext _), append_toUTF8_append, ih (hnext _),
      append_toUTF8_append, List.map_cons, String.join_cons]

/-- The line that is not text ends the session. -/
theorem run_serve_of_not_isValidUTF8 (config : Config) {line : ByteArray} (h : ¬ line.IsValidUTF8)
    (lines : List ByteArray) (d : Device) :
    (serve config (line :: lines)).run d = .error .notText d := by
  rw [serve, reply_of_not_isValidUTF8 h]
  rfl

/-- A session over an input whose first lines are text. -/
theorem run_start (config : Config) {input : ByteArray} {texts : List String}
    {lines : List ByteArray} (h : Text.linesOf input = texts.map String.toUTF8 ++ lines) :
    (start config input).run (.ofCapacity none) =
      (serve config lines).run
        ((Device.ofCapacity none).append (exchange config texts).toUTF8) := by
  rw [start, h, run_say_bind rfl, run_serve_append _ _ _ rfl, append_toUTF8_append]
  rfl

/-- Lines that have the same replies make up the same session. -/
theorem serve_congr (config : Config) {lines lines' : List ByteArray}
    (h : lines.map reply = lines'.map reply) : serve config lines = serve config lines' := by
  induction lines generalizing lines' with
  | nil => rw [List.map_eq_nil_iff.mp h.symm]
  | cons line lines ih =>
    obtain ⟨line', lines'', rfl, hline, hlines⟩ := List.map_eq_cons_iff.mp h.symm
    rw [serve, serve, hline, ih hlines.symm]

/-- Lines that stay as they are or get a carriage return at their end have the same replies. -/
theorem map_reply_eq {ls ls' : List (List UInt8)}
    (h : List.Forall₂ (fun l l' => l' = l ∨ l' = l ++ [Text.carriageReturn]) ls ls') :
    (ls'.map List.toByteArray).map reply = (ls.map List.toByteArray).map reply := by
  induction h with
  | nil => rfl
  | @cons l l' ls ls' hl _ ih =>
    have hreply : reply l'.toByteArray = reply l.toByteArray := by
      obtain rfl | rfl := hl
      · rfl
      · exact reply_append_return l
    simp only [List.map_cons, hreply, ih]

/-- A session does not see whether there is a carriage return in front of a line feed. -/
theorem start_withReturns (config : Config) (input : ByteArray) :
    start config (Text.withReturns input.data.toList).toByteArray = start config input := by
  obtain ⟨ls, hls⟩ := Text.exists_isLines input.data.toList
  obtain ⟨ls', hls', hsame⟩ := hls.withReturns
  rw [start, start, Text.linesOf, Text.linesOf, List.data_toByteArray, hls'.lines_eq, hls.lines_eq,
    serve_congr config (map_reply_eq hsame)]

/-! ### Transcripts -/

/-- **The transcript of a session** on a device without a limit. The bytes of the input are made up
of lines in one way. If all lines are text, then the prompt is written, after the answer to each
line the prompt again, and at last the farewell. If a line is the first that is not text, the lines
before it are answered and the session ends with this fault. Each answer is about its own line
alone, and it does not matter if a carriage return is put in front of every line feed. -/
theorem run_eq_transcript (config : Config) (input : ByteArray) :
    ∃ ls, (∀ ls', Text.IsLines input.data.toList ls' ↔ ls' = ls) ∧
      ((∀ l ∈ ls, l.toByteArray.IsValidUTF8) →
        ∃ texts, ls = texts.map Text.encoded ∧
          run config none input = ⟨(exchange config texts ++ "\nExiting...\n").toUTF8, none⟩) ∧
      (∀ before bad others, ls = before ++ bad :: others →
        (∀ l ∈ before, l.toByteArray.IsValidUTF8) → ¬ bad.toByteArray.IsValidUTF8 →
        ∃ texts, before = texts.map Text.encoded ∧
          run config none input = ⟨(exchange config texts).toUTF8, some .notText⟩) ∧
      run config none (Text.withReturns input.data.toList).toByteArray = run config none input := by
  refine ⟨Text.lines input.data.toList, fun ls' => ?_, fun hvalid => ?_, ?_, ?_⟩
  · rw [Text.isLines_iff, eq_comm]
  · obtain ⟨texts, htexts⟩ := Text.exists_map_encoded hvalid
    have hlines : Text.linesOf input = texts.map String.toUTF8 ++ [] := by
      rw [Text.linesOf, htexts, Text.map_toByteArray_encoded, List.append_nil]
    refine ⟨texts, htexts, ?_⟩
    rw [run, run_start config hlines, serve, run_say rfl, append_toUTF8_append]
    exact congrArg (Outcome.mk · none) (Device.written_ofCapacity_append _ _)
  · intro before bad others hls hvalid hbad
    obtain ⟨texts, rfl⟩ := Text.exists_map_encoded hvalid
    have hlines : Text.linesOf input =
        texts.map String.toUTF8 ++ bad.toByteArray :: others.map List.toByteArray := by
      rw [Text.linesOf, hls, List.map_append, Text.map_toByteArray_encoded, List.map_cons]
    refine ⟨texts, rfl, ?_⟩
    rw [run, run_start config hlines, run_serve_of_not_isValidUTF8 config hbad]
    exact congrArg (Outcome.mk · (some .notText)) (Device.written_ofCapacity_append _ _)
  · rw [run, run, start_withReturns]

/-- A line that ends with a carriage return, one with an error, one that is not text and another
after it. -/
theorem run_eq_transcript_notText :
    run .standard none [97, 13, 10, 41, 10, 255, 10, 98].toByteArray =
      ⟨">> a\n>> Parser errors:\n\tno prefix parse function for RPAREN found\n>> ".toUTF8,
        some .notText⟩ := by
  obtain ⟨ls, hls, -, hbad, -⟩ :=
    run_eq_transcript .standard [97, 13, 10, 41, 10, 255, 10, 98].toByteArray
  have hlines : ls = [[97], [41], [255], [98]] := ((hls _).mp (Text.isLines_iff.mpr rfl)).symm
  have hbefore : ∀ l ∈ [Text.encoded "a", Text.encoded ")"], l.toByteArray.IsValidUTF8 := by
    simp [Text.toByteArray_encoded, String.isValidUTF8]
  obtain ⟨texts, htexts, hrun⟩ :=
    hbad [Text.encoded "a", Text.encoded ")"] [255] [[98]] hlines hbefore (by decide)
  obtain rfl : ["a", ")"] = texts := List.map_injective_iff.mpr Text.encoded_injective htexts
  have hexchange : exchange .standard ["a", ")"] =
      ">> a\n>> Parser errors:\n\tno prefix parse function for RPAREN found\n>> " := by
    decide +kernel
  rw [hrun, hexchange]

end Session

end FrontEnd
