import FrontEnd.CommandLine.Basic
import FrontEnd.Proofs.Transcript

/-!
# Files and lines

A text without line feeds can be put into a file or typed as a line. The program prints the same
answer in both cases; for a file with errors it adds hints, and its exit code tells whether there
were any. The two ways do not see quite the same text: a carriage return at the end of the line is
dropped with the line feed, and stays in the file. It is a blank there.

## Main definitions

* `FrontEnd.ParseError.hasHint` — the errors that come with a hint.

## Main results

* `FrontEnd.Text.lineFeed_notMem_encoded` — a text without line feeds has none among its bytes.
* `FrontEnd.Session.run_line` — a session over a single line.
* `FrontEnd.CommandLine.help_eq` — the lines of the hints.
* `FrontEnd.CommandLine.run_file_eq_session` — a file is answered as a line is.
-/

namespace FrontEnd

/-! ### Line feeds among bytes -/

namespace Text

/-- The byte of a line feed occurs in no other character. -/
theorem eq_of_lineFeed_mem_utf8EncodeChar {c : Char} (h : lineFeed ∈ String.utf8EncodeChar c) :
    c = '\n' := by
  have hmod {n : Nat} (hn : lineFeed = UInt8.ofNat n) : n % 256 = 10 := by
    simpa [lineFeed] using congrArg UInt8.toNat hn.symm
  revert h
  fun_cases String.utf8EncodeChar with
  | case1 v hv =>
    intro h
    have hval := hmod (List.mem_singleton.mp h)
    refine Char.ext (UInt32.toNat_inj.mp ?_)
    change v = 10
    omega
  -- All bytes of a longer character are at least 128.
  | case2 v =>
    simp only [List.mem_cons, List.not_mem_nil, or_false]
    rintro (h | h) <;> have hval := hmod h <;> omega
  | case3 v =>
    simp only [List.mem_cons, List.not_mem_nil, or_false]
    rintro (h | h | h) <;> have hval := hmod h <;> omega
  | case4 v =>
    simp only [List.mem_cons, List.not_mem_nil, or_false]
    rintro (h | h | h | h) <;> have hval := hmod h <;> omega

theorem encoded_eq_flatMap (text : String) :
    encoded text = text.toList.flatMap String.utf8EncodeChar := by
  rw [encoded, String.toUTF8_eq_toByteArray, ← String.utf8Encode_toList, List.utf8Encode,
    List.data_toByteArray]

/-- A text without line feeds has none among its bytes. -/
theorem lineFeed_notMem_encoded {text : String} (h : '\n' ∉ text.toList) :
    lineFeed ∉ encoded text := by
  intro hmem
  rw [encoded_eq_flatMap] at hmem
  obtain ⟨c, hc, hbyte⟩ := List.mem_flatMap.mp hmem
  exact h (eq_of_lineFeed_mem_utf8EncodeChar hbyte ▸ hc)

end Text

/-! ### A session over a single line -/

namespace Session

/-- A text without line feeds that is followed by one is read as one line, which has the answer of
the text. -/
theorem exists_line {text : String} (h : '\n' ∉ text.toList) :
    ∃ line, Text.linesOf (text ++ "\n").toUTF8 = [line].map String.toUTF8 ∧
      response line = response text := by
  have hfeed := Text.lineFeed_notMem_encoded h
  have hbytes : (text ++ "\n").toUTF8.data.toList = Text.encoded text ++ [Text.lineFeed] := by
    rw [Text.toUTF8_append, ByteArray.toList_data_append]
    rfl
  have hlines {line : String} (hline : Text.IsLines (Text.encoded text ++ [Text.lineFeed])
      [Text.encoded line]) : Text.linesOf (text ++ "\n").toUTF8 = [line].map String.toUTF8 := by
    rw [Text.linesOf, hbytes, hline.lines_eq, List.map_singleton, Text.toByteArray_encoded,
      List.map_singleton]
  by_cases hreturn : (Text.encoded text).getLast? = some Text.carriageReturn
  · -- The carriage return at the end is dropped with the line feed.
    obtain ⟨l, hl⟩ := List.getLast?_eq_some_iff.mp hreturn
    have hvalid : (l ++ [Text.carriageReturn]).toByteArray.IsValidUTF8 := by
      rw [← hl, Text.toByteArray_encoded]
      exact text.isValidUTF8
    obtain ⟨line, rfl⟩ := Text.exists_encoded (Text.isValidUTF8_of_append_return hvalid)
    obtain rfl : text = line ++ "\r" := by
      rw [Text.encoded_append_return] at hl
      exact Text.encoded_injective hl
    refine ⟨line, hlines ?_, (response_append_return line).symm⟩
    rw [hl, List.append_assoc]
    exact .returnFeed (fun hmem => hfeed (by simp [hl, hmem])) .nil
  · exact ⟨text, hlines (.feed hfeed hreturn .nil), rfl⟩

/-- A session over a single line writes its answer between two prompts. -/
theorem run_line (config : Config) {text : String} (h : '\n' ∉ text.toList) :
    run config none (text ++ "\n").toUTF8 =
      ⟨(config.prompt ++ response text ++ config.prompt ++ "\nExiting...\n").toUTF8, none⟩ := by
  obtain ⟨line, hlines, hresponse⟩ := exists_line h
  have hwords : exchange config [line] ++ farewell =
      config.prompt ++ response text ++ config.prompt ++ "\nExiting...\n" := by
    rw [← hresponse, response_eq]
    simp [exchange, farewell, String.append_assoc]
  rw [run, run_start config (hlines.trans (List.append_nil _).symm), serve, run_say rfl,
    append_toUTF8_append, hwords]
  exact congrArg (Outcome.mk · none) (Device.written_ofCapacity_append _ _)

end Session

/-! ### Hints -/

/-- Whether an error comes with a hint: all do, but of those about a token that was expected only
the ones about `)` and `{`. -/
def ParseError.hasHint : ParseError → Bool
  | unexpected expected _ => expected = .rparen ∨ expected = .lbrace
  | _ => true

theorem ParseError.isSome_hint? (e : ParseError) : e.hint?.isSome = e.hasHint := by
  cases e with
  | noExpression => rfl
  | badInteger => rfl
  | unexpected expected found => cases expected <;> rfl

namespace CommandLine

/-- The line with the hint of an error. -/
def IsHelpLine (e : ParseError) (line : String) : Prop :=
  ∃ hint, e.hint? = some hint ∧ line = "help (" ++ e.name ++ "): " ++ hint ++ "\n"

/-- The hints are lines, one for each error that comes with a hint, in order. -/
theorem help_eq (errors : List ParseError) : ∃ lines,
    List.Forall₂ IsHelpLine (errors.filter ParseError.hasHint) lines ∧
      help errors = String.join lines := by
  refine ⟨_, ?_, rfl⟩
  induction errors with
  | nil => exact .nil
  | cons e errors ih =>
    have hhint := e.isSome_hint?
    cases h : e.hint? with
    | none =>
      rw [h, Option.isSome_none] at hhint
      rw [List.filter_cons_of_neg (by simp [← hhint]), List.filterMap_cons_none (by simp [h])]
      exact ih
    | some hint =>
      rw [h, Option.isSome_some] at hhint
      rw [List.filter_cons_of_pos hhint.symm, List.filterMap_cons_some (by rw [h]; rfl)]
      exact .cons ⟨hint, h, rfl⟩ ih

/-! ### Files -/

/-- The text of a file is answered as a line with this text, followed by the hints. -/
theorem onText_eq (text : String) :
    onText text = ⟨if (parse text).errors = [] then 0 else 1,
      (Session.response text ++ help (parse text).errors).toUTF8, ""⟩ := by
  unfold onText Session.response canonical
  by_cases herrors : (parse text).errors = []
  · simp [herrors, help]
  · simp [herrors]

theorem onFile_ok (path text : String) : onFile path (.ok text.toUTF8) = onText text := by
  simp only [onFile, Except.bind, Text.fromUTF8?_toUTF8]

/-- **A file is answered as a line is.** For a text without line feeds, there is an answer that a
session writes between two prompts if the text and a line feed are typed, and that the program
prints for a file with this text. After it the program prints the hints of the errors, in order: one
line for each error, except for an expected token other than `)` and `{`. The exit code is 0 if
there are no errors, and 1 otherwise. -/
theorem run_file_eq_session (read : String → Except ReadFault ByteArray) (env : Session.Environment)
    (path : String) (arguments : List String) (input : ByteArray) (text : String)
    (hread : read path = .ok text.toUTF8) (hline : '\n' ∉ text.toList) :
    ∃ answer lines,
      (∀ config, Session.run config none (text ++ "\n").toUTF8 =
        ⟨(config.prompt ++ answer ++ config.prompt ++ "\nExiting...\n").toUTF8, none⟩) ∧
      run read env (path :: arguments) input =
        ⟨if (parse text).errors = [] then 0 else 1, (answer ++ String.join lines).toUTF8, ""⟩ ∧
      List.Forall₂ IsHelpLine ((parse text).errors.filter ParseError.hasHint) lines ∧
      ((parse text).errors = [] → lines = []) := by
  obtain ⟨lines, hlines, hhelp⟩ := help_eq (parse text).errors
  refine ⟨Session.response text, lines, fun config => Session.run_line config hline, ?_, hlines,
    fun herrors => ?_⟩
  · rw [run, hread, onFile_ok, onText_eq, hhelp]
  · rw [herrors, List.filter_nil] at hlines
    exact List.forall₂_nil_left_iff.mp hlines

/-- A text that ends with a carriage return, with an error without a hint and one with a hint. -/
theorem run_file_eq_session_return :
    ∃ answer, Session.run .standard none ("let 1; (2\r" ++ "\n").toUTF8 =
        ⟨(">> " ++ answer ++ ">> " ++ "\nExiting...\n").toUTF8, none⟩ ∧
      run (fun _ => .ok "let 1; (2\r".toUTF8) (fun _ => none) ["path"] ByteArray.empty =
        ⟨1, (answer ++ "help (UnexpectedPeek): did you forget a closing `)`?\n").toUTF8, ""⟩ := by
  have herrors : (parse "let 1; (2\r").errors =
      [.unexpected .ident .int, .unexpected .rparen .eof] := by decide +kernel
  obtain ⟨answer, lines, hsession, hrun, hlines, -⟩ :=
    run_file_eq_session (fun _ => .ok "let 1; (2\r".toUTF8) (fun _ => none) "path" []
      ByteArray.empty "let 1; (2\r" rfl (by decide)
  have hfilter : (parse "let 1; (2\r").errors.filter ParseError.hasHint =
      [.unexpected .rparen .eof] := by
    rw [herrors]
    rfl
  rw [hfilter] at hlines
  rw [herrors, if_neg (by simp)] at hrun
  cases hlines with
  | cons hfirst hothers =>
    cases hothers
    obtain ⟨hint, hhint, rfl⟩ := hfirst
    cases hhint
    exact ⟨answer, hsession .standard, hrun⟩

end CommandLine

end FrontEnd
