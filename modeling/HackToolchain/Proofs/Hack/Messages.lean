import HackToolchain.Proofs.Attempts
import HackToolchain.Proofs.Hack.Likeness

namespace HackToolchain
namespace Hack

/-!
# Messages of assembly

What is wrong with an address or a label is told with an escaped token.  The field errors of a compute
instruction quote the literals of its line as they are, and only parts of them.  So a diagnostic is one
line unless a token of such an instruction goes on beyond the line, which only a comment does that is
never closed.
-/

/-! ## Field errors -/

/-- The text that a field error quotes. -/
def FieldError.quoted : FieldError -> List Char
  | .missingDestination => []
  | .invalidDestination text | .invalidComputation text | .invalidJump text => text.toList

/-- A field error ends with a quotation mark. -/
theorem FieldError.ending (error : FieldError) : error.message.toList.getLast? ≠ some '\r' := by
  have quoted (text : String) : (text ++ "'").toList.getLast? ≠ some '\r' := by
    rw [String.toList_append, List.getLast?_append_of_ne_nil _ (by decide)]
    decide
  cases error with
  | missingDestination => decide
  | invalidDestination text => exact quoted _
  | invalidComputation text => exact quoted _
  | invalidJump text => exact quoted _

/-- A field error is worded around what it quotes. -/
theorem FieldError.closed {error : FieldError} (closed : '\n' ∉ error.quoted) :
    '\n' ∉ error.message.toList := by
  have around {opening text : String} (fixed : '\n' ∉ opening.toList) (closed : '\n' ∉ text.toList) :
      '\n' ∉ (opening ++ text ++ "'").toList := by
    rw [String.toList_append, String.toList_append, List.mem_append, List.mem_append]
    exact not_or.mpr ⟨not_or.mpr ⟨fixed, closed⟩, by decide⟩
  cases error with
  | missingDestination => decide
  | invalidDestination text => exact around (by decide) closed
  | invalidComputation text => exact around (by decide) closed
  | invalidJump text => exact around (by decide) closed

theorem Destination.quoted_of_ofText {text : String} {error : FieldError}
    (refused : Destination.ofText text = .error error) : error.quoted ⊆ text.toList := by
  unfold Destination.ofText at refused
  split at refused
  · cases refused
    exact List.nil_subset _
  · split at refused
    · cases refused
    · cases refused
      exact List.Subset.refl _

theorem Computation.quoted_of_ofText {text : String} {error : FieldError}
    (refused : Computation.ofText text = .error error) : error.quoted ⊆ text.toList := by
  unfold Computation.ofText at refused
  split at refused
  · cases refused
  · cases refused
    exact List.Subset.refl _

theorem Jump.quoted_of_ofText {text : String} {error : FieldError}
    (refused : Jump.ofText text = .error error) : error.quoted ⊆ text.toList := by
  unfold Jump.ofText at refused
  split at refused
  · cases refused
  · cases refused
    exact List.Subset.refl _

/-- The parts of a text that is split hold none but its characters. -/
theorem subset_of_splitAtFirst {separator : Char} {text front behind : String}
    (found : splitAtFirst separator text = some (front, behind)) :
    front.toList ⊆ text.toList ∧ behind.toList ⊆ text.toList := by
  rw [splitAtFirst_sound found]
  exact ⟨List.subset_append_left _ _, fun _ member => List.mem_append_right _ (.tail _ member)⟩

theorem quoted_of_operation {destination : Destination} {text : String} {error : FieldError}
    (refused : operationOfText destination text = .error error) : error.quoted ⊆ text.toList := by
  unfold operationOfText at refused
  cases split : splitAtFirst ';' text with
  | none =>
      rw [split] at refused
      rcases bind_eq_error.mp refused with ⟨⟨⟩⟩ | ⟨_, ⟨⟩, refused⟩
      rcases bind_eq_error.mp refused with fault | ⟨_, -, ⟨⟩⟩
      exact Computation.quoted_of_ofText fault
  | some parts =>
      rw [split] at refused
      obtain ⟨inFront, behind⟩ := subset_of_splitAtFirst split
      rcases bind_eq_error.mp refused with fault | ⟨_, -, refused⟩
      · exact List.Subset.trans (Jump.quoted_of_ofText fault) behind
      rcases bind_eq_error.mp refused with ⟨⟨⟩⟩ | ⟨_, ⟨⟩, refused⟩
      rcases bind_eq_error.mp refused with fault | ⟨_, -, ⟨⟩⟩
      exact List.Subset.trans (Computation.quoted_of_ofText fault) inFront

/-- Whatever a field error quotes stands in the text that the fields are read from. -/
theorem quoted_of_computeOfText {text : String} {error : FieldError}
    (refused : computeOfText text = .error error) : error.quoted ⊆ text.toList := by
  unfold computeOfText at refused
  cases split : splitAtFirst '=' text with
  | none =>
      rw [split] at refused
      exact quoted_of_operation refused
  | some parts =>
      rw [split] at refused
      obtain ⟨inFront, behind⟩ := subset_of_splitAtFirst split
      rcases bind_eq_error.mp refused with fault | ⟨_, -, refused⟩
      · exact List.Subset.trans (Destination.quoted_of_ofText fault) inFront
      · exact List.Subset.trans (quoted_of_operation refused) behind

/-! ## Lines -/

/-- A compute instruction is to be read from the line, but a token on it goes on beyond the line. -/
def RunsOver (line : TokenLine) : Prop :=
  Source.startsCompute (line.tokens.headD line.ending).kind = true ∧ '\n' ∈ literals line.tokens

instance : DecidablePred RunsOver := fun _ => inferInstanceAs (Decidable (_ ∧ _))

/-- How a message of assembly is worded: a carriage return at its end would be taken for a part of the
line end behind it, and a line feed stands in it only where an instruction runs over. -/
structure Worded (runsOver : Prop) (diagnostic : Diagnostic) : Prop where
  ending : diagnostic.message.toList.getLast? ≠ some '\r'
  closed : ¬runsOver -> '\n' ∉ diagnostic.message.toList

theorem worded_of_verdict {line : TokenLine} (wellFormed : line.WellFormed)
    (alike : line.Alike .asm line) {found : List Diagnostic}
    (refused : Source.instruction.verdict line = .error found) :
    ∀ diagnostic ∈ found, Worded (RunsOver line) diagnostic := by
  cases starts : Source.startsCompute (line.tokens.headD line.ending).kind with
  | false =>
      rw [verdict_of_not_starts starts] at refused
      intro diagnostic member
      have oneLine := (Source.alike_tokenwise.verdict alike).isOneLine refused diagnostic member
      exact ⟨oneLine.ending, fun _ => oneLine.closed⟩
  | true =>
      rw [verdict_of_starts wellFormed starts] at refused
      unfold computed at refused
      split at refused
      · cases refused
      · rename_i error fields
        cases refused
        have quoted := quoted_of_computeOfText fields
        rw [String.toList_ofList] at quoted
        refine List.forall_mem_singleton.mpr ⟨error.ending, fun within => FieldError.closed ?_⟩
        exact fun newline => within ⟨starts, quoted newline⟩

theorem worded_of_parse {source : String} {found : List Diagnostic} (refused : parse source = .error found) :
    ∀ diagnostic ∈ found, Worded (∃ line ∈ sourceLines .asm source, RunsOver line) diagnostic := by
  have alike := List.forall₂_same.mp (alike_sourceLines ((lineReading .asm).alike_self source))
  unfold parse at refused
  rw [readLines_eq_gathered .asm source Source.keepsToLine_instruction] at refused
  intro diagnostic member
  rw [gathered_eq_error refused] at member
  obtain ⟨verdict, judged, complained⟩ := List.mem_flatMap.mp member
  obtain ⟨line, inSource, rfl⟩ := List.mem_map.mp judged
  cases verdict : Source.instruction.verdict line with
  | ok entry =>
      rw [verdict] at complained
      cases complained
  | error complaints =>
      rw [verdict] at complained
      have worded := worded_of_verdict (wellFormed_of_mem_sourceLines inSource) (alike line inSource)
        verdict diagnostic complained
      exact ⟨worded.ending, fun within => worded.closed fun runsOver => within ⟨line, inSource, runsOver⟩⟩

end Hack
end HackToolchain
