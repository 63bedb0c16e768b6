import HackToolchain.Proofs.Hack.Likeness
import HackToolchain.Proofs.Jack.Likeness
import HackToolchain.Proofs.Vm.Likeness

namespace HackToolchain

/-!
# Line ends do not matter

The parsers of all three languages leave comments out, and no token of what is left is asked for the
line ends in it.  So a source comes to the same whether its lines end with a line feed alone or with a
carriage return and a line feed: the same tree, commands or instructions, or as many diagnostics at the
same places.

What the diagnostics say may differ, because they quote a comment that is never closed with the line
ends in it.
-/

/-- Take a source without carriage returns, and put one in front of each of its line feeds.  Both are
read to the same class, the same commands with their lines and the same instructions with their lines.
A parser that refuses one of them refuses the other, with as many diagnostics at the same places. -/
theorem line_ends_do_not_matter {source : String} (noReturn : '\r' ∉ source.toList) :
    SameOutcome Diagnostic.SamePlace (Jack.parse source) (Jack.parse (returned source)) ∧
      SameOutcome Diagnostic.SamePlace (Vm.parse source) (Vm.parse (returned source)) ∧
      SameOutcome Diagnostic.SamePlace (Hack.parse source) (Hack.parse (returned source)) := by
  have classes := Jack.sameOutcome_parse (Jack.reading.alike_returned rfl noReturn)
  have commands := Vm.sameOutcome_parse ((lineReading .vm).alike_returned rfl noReturn)
  exact ⟨classes.mono fun _ _ alike => alike.position, commands.mono fun _ _ alike => alike.position,
    Hack.sameOutcome_parse ((lineReading .asm).alike_returned rfl noReturn)⟩

/-- A string and a comment that are left open are no exceptions. -/
theorem line_ends_of_open_tokens :
    let source := "M=1 // one\n\"open\n/* left\nopen"
    '\r' ∉ source.toList ∧
      SameOutcome Diagnostic.SamePlace (Jack.parse source) (Jack.parse (returned source)) ∧
      SameOutcome Diagnostic.SamePlace (Vm.parse source) (Vm.parse (returned source)) ∧
      SameOutcome Diagnostic.SamePlace (Hack.parse source) (Hack.parse (returned source)) := by
  intro source
  have noReturn : '\r' ∉ source.toList := by decide
  exact ⟨noReturn, line_ends_do_not_matter noReturn⟩

/-- The quoted comment tells the line ends apart. -/
example : Vm.parse "/*\n" ≠ Vm.parse (returned "/*\n") := by decide +kernel

end HackToolchain
