import HackToolchain.Build
import HackToolchain.Proofs.Hack.Messages
import HackToolchain.Proofs.Jack.Likeness
import HackToolchain.Proofs.Vm.Likeness

namespace HackToolchain

/-!
# Diagnostics stay one per line

The diagnostics of a source are put together to one message, a line for each of them, and a report on a
file splits this message into lines again.  Nothing is lost on the way if every diagnostic is one line.

Messages that quote a token of free text escape it, so the messages about classes and commands are one
line whatever the source is.  The field errors of a compute instruction quote the literals of a line of
assembly as they are.  These go beyond the line if a comment on it is never closed, and then a
diagnostic is split.
-/

/-- Diagnostics that stay one per line: their message is split into the texts that show them, and a
report on a file has one text for each, which begins with the name of the file and a place. -/
structure Diagnostic.OnePerLine (diagnostics : List Diagnostic) : Prop where
  lines : Text.lines (joined diagnostics) = diagnostics.map text
  report (file : String) : (Build.Report.complaint file (joined diagnostics)).diagnostics =
    diagnostics.map fun diagnostic => file ++ ": " ++ diagnostic.text
  begins (file : String) :
    ∀ shown ∈ (Build.Report.complaint file (joined diagnostics)).diagnostics,
      (file ++ ": parsing error (line ").toList <+: shown.toList

/-- A report on a file has the lines of the message. -/
theorem Diagnostic.onePerLine_of_lines {diagnostics : List Diagnostic}
    (lines : Text.lines (joined diagnostics) = diagnostics.map text) : OnePerLine diagnostics := by
  have report (file : String) : (Build.Report.complaint file (joined diagnostics)).diagnostics =
      diagnostics.map fun diagnostic => file ++ ": " ++ diagnostic.text := by
    unfold Build.Report.complaint
    rw [lines, List.map_map]
    rfl
  refine ⟨lines, report, fun file shown member => ?_⟩
  rw [report] at member
  obtain ⟨diagnostic, -, rfl⟩ := List.mem_map.mp member
  unfold text
  simp [String.toList_append]

/-- Messages that do not end in carriage returns stay one per line exactly if they hold no line feeds. -/
theorem Diagnostic.onePerLine_iff {diagnostics : List Diagnostic}
    (ending : ∀ diagnostic ∈ diagnostics, diagnostic.message.toList.getLast? ≠ some '\r') :
    OnePerLine diagnostics ↔ ∀ diagnostic ∈ diagnostics, '\n' ∉ diagnostic.message.toList := by
  constructor
  · intro onePerLine diagnostic member newline
    have inLines : diagnostic.text ∈ Text.lines (joined diagnostics) := by
      rw [onePerLine.lines]
      exact List.mem_map_of_mem member
    have inText : '\n' ∈ diagnostic.text.toList := by
      unfold text
      rw [String.toList_append]
      exact List.mem_append_right _ newline
    exact Text.closed_of_mem_lines inLines inText
  · intro closed
    refine onePerLine_of_lines (Text.lines_joinLines (List.forall_mem_map.mpr ?_))
    exact fun diagnostic member => isLine_text (closed diagnostic member) (ending diagnostic member)

/-- A reader that does not look into malformed tokens has diagnostics that stay one per line. -/
theorem SameOutcome.onePerLine {outcome : Except (List Diagnostic) α}
    (alike : SameOutcome Diagnostic.Alike outcome outcome) {found : List Diagnostic}
    (refused : outcome = .error found) : Diagnostic.OnePerLine found := by
  have oneLine := alike.isOneLine refused
  exact (Diagnostic.onePerLine_iff fun diagnostic member => (oneLine diagnostic member).ending).mpr
    fun diagnostic member => (oneLine diagnostic member).closed

/-! ## Sources -/

/-- The parsers for classes and commands refuse a source with diagnostics that stay one per line,
whatever the source is.  Those of the assembler's parser do so exactly if no message holds a line feed,
and none does unless a compute instruction runs over its line. -/
theorem diagnostics_stay_one_per_line (source : String) :
    (∀ found, Jack.parse source = .error found -> Diagnostic.OnePerLine found) ∧
      (∀ found, Vm.parse source = .error found -> Diagnostic.OnePerLine found) ∧
      ∀ found, Hack.parse source = .error found ->
        (Diagnostic.OnePerLine found ↔ ∀ diagnostic ∈ found, '\n' ∉ diagnostic.message.toList) ∧
          ((∀ line ∈ sourceLines .asm source, ¬Hack.RunsOver line) -> Diagnostic.OnePerLine found) := by
  have classes := Jack.sameOutcome_parse (Jack.reading.alike_self source)
  have commands := Vm.sameOutcome_parse ((lineReading .vm).alike_self source)
  refine ⟨fun _ => classes.onePerLine, fun _ => commands.onePerLine, fun found refused => ?_⟩
  have worded := Hack.worded_of_parse refused
  have exactly := Diagnostic.onePerLine_iff fun diagnostic member => (worded diagnostic member).ending
  refine ⟨exactly, fun within => exactly.mpr fun diagnostic member => ?_⟩
  refine (worded diagnostic member).closed ?_
  rintro ⟨line, inSource, runsOver⟩
  exact within line inSource runsOver

/-- An open comment behind an at sign is quoted with its line ends escaped. -/
theorem open_comment_stays_one_line :
    let source := "D=?\n@/* left\nopen"
    let found : List Diagnostic := [⟨⟨1, 1⟩, .remark "invalid computation '?'"⟩,
      ⟨⟨2, 2⟩, .nextIsNot "a symbol or an address" ⟨⟨2, 2⟩, .illegal, "/* left\nopen"⟩⟩]
    (∀ line ∈ sourceLines .asm source, ¬Hack.RunsOver line) ∧ Hack.parse source = .error found ∧
      Diagnostic.OnePerLine found := by
  intro source found
  have within : ∀ line ∈ sourceLines .asm source, ¬Hack.RunsOver line := by decide +kernel
  have refused : Hack.parse source = .error found := by decide +kernel
  exact ⟨within, refused, ((diagnostics_stay_one_per_line source).2.2 found refused).2 within⟩

/-- An open comment in a computation splits the one diagnostic of its source into two lines. -/
theorem open_comment_in_computation_takes_two_lines :
    let found : List Diagnostic := [⟨⟨1, 1⟩, .remark "invalid computation '/*\nfoo'"⟩]
    Hack.parse "D=/*\nfoo" = .error found ∧
      Text.lines (Diagnostic.joined found) =
        ["parsing error (line 1, col 1): invalid computation '/*", "foo'"] ∧
      ¬Diagnostic.OnePerLine found := by
  intro found
  have split : Text.lines (Diagnostic.joined found) =
      ["parsing error (line 1, col 1): invalid computation '/*", "foo'"] := by decide +kernel
  refine ⟨by decide +kernel, split, fun onePerLine => ?_⟩
  have same := congrArg List.length (split.symm.trans onePerLine.lines)
  exact absurd same (by decide)

end HackToolchain
