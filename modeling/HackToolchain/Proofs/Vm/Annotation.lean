import HackToolchain.Proofs.Hack.Spelling
import HackToolchain.Proofs.Vm.Labels

namespace HackToolchain

/-!
# Programs with and without comments

Comments can be put in front of the code of every command.  They take up no words and no labels, and
whether they are wanted decides nothing else: the numbers of labels are handed out in the same way, and
what is wrong with a program is known before anything is laid out.

The assembler counts the entries of a listing only to tell where an error is.  So the lines of its errors
are all that comments move.
-/

namespace Hack

/-! ## Listings up to comments -/

/-- A listing without its comments. -/
def Listing.uncommented (listing : Listing) : Listing := listing.filter fun entry => !entry.isComment

theorem Listing.uncommented_append (first second : Listing) :
    Listing.uncommented (first ++ second) = first.uncommented ++ second.uncommented :=
  List.filter_append ..

/-- An error without the line that it tells. -/
def AssemblyError.withoutLine : AssemblyError -> AssemblyError
  | .duplicateLabel label _ => .duplicateLabel label 0
  | error => error

/-- The lines of a program matter only for the line of an error. -/
theorem bindLabels_of_entries (count : Nat) (table : SymbolTable)
    {program other : List (Located Instruction)} (same : entries program = entries other) :
    (bindLabels count table program).mapError AssemblyError.withoutLine =
      (bindLabels count table other).mapError AssemblyError.withoutLine := by
  induction program generalizing count table other with
  | nil =>
      cases other with
      | nil => rfl
      | cons _ _ => cases same
  | cons entry rest inductionHypothesis =>
      cases other with
      | nil => cases same
      | cons otherEntry otherRest =>
          rcases entry with ⟨item, line⟩
          rcases otherEntry with ⟨otherItem, otherLine⟩
          rcases List.cons.inj same with ⟨(rfl : item = otherItem), sameRest⟩
          cases item with
          | label name =>
              unfold bindLabels
              split
              · split
                · exact inductionHypothesis count _ sameRest
                · rfl
              · rfl
          | comment text =>
              have later := inductionHypothesis count table sameRest
              exact later
          | value number => exact inductionHypothesis (count + 1) table sameRest
          | symbol name => exact inductionHypothesis (count + 1) table sameRest
          | compute destination computation jump =>
              exact inductionHypothesis (count + 1) table sameRest

/-- The lines of a program do not matter for its words. -/
theorem encodeAll_of_entries (table : SymbolTable) (image : Array UInt16)
    {program other : List (Located Instruction)} (same : entries program = entries other) :
    encodeAll table image program = encodeAll table image other := by
  induction program generalizing table image other with
  | nil =>
      cases other with
      | nil => rfl
      | cons _ _ => cases same
  | cons entry rest inductionHypothesis =>
      cases other with
      | nil => cases same
      | cons otherEntry otherRest =>
          rcases List.cons.inj same with ⟨sameItem, sameRest⟩
          unfold encodeAll
          rw [sameItem]
          split
          · exact inductionHypothesis _ _ sameRest
          · exact inductionHypothesis _ _ sameRest

theorem assembleLocated_of_entries {program other : List (Located Instruction)}
    (same : entries program = entries other) :
    (assembleLocated program).mapError AssemblyError.withoutLine =
      (assembleLocated other).mapError AssemblyError.withoutLine := by
  have bound := bindLabels_of_entries 0 .initial same
  unfold assembleLocated
  cases binds : bindLabels 0 .initial program with
  | ok table =>
      cases bindsOther : bindLabels 0 .initial other with
      | ok otherTable =>
          rw [binds, bindsOther] at bound
          cases bound
          exact congrArg (fun image => Except.ok image.toList) (encodeAll_of_entries table #[] same)
      | error _ =>
          rw [binds, bindsOther] at bound
          cases bound
  | error error =>
      cases bindsOther : bindLabels 0 .initial other with
      | ok _ =>
          rw [binds, bindsOther] at bound
          cases bound
      | error _ =>
          rw [binds, bindsOther] at bound
          exact congrArg Except.error (Except.error.inj bound)

theorem assembleLocated_filter (program : List (Located Instruction)) :
    assembleLocated (program.filter fun entry => !entry.item.isComment) =
      assembleLocated program := by
  unfold assembleLocated
  simp only [bindLabels_filter, encodeAll_filter]

/-- Without its comments a listing gives the same words, or the same error up to the line. -/
theorem assemble_uncommented (listing : Listing) :
    (assemble listing.uncommented).mapError AssemblyError.withoutLine =
      (assemble listing).mapError AssemblyError.withoutLine := by
  have same : entries (located listing.uncommented) =
      entries ((located listing).filter fun entry => !entry.item.isComment) :=
    calc entries (located listing.uncommented)
      _ = Listing.uncommented (entries (located listing)) := by rw [entries_located, entries_located]
      _ = _ := List.filter_map ..
  exact (assembleLocated_of_entries same).trans
    (congrArg (Except.mapError AssemblyError.withoutLine) (assembleLocated_filter (located listing)))

end Hack

namespace Vm

open Hack

/-! ## Code without comments -/

section Code

open Hack.Listing Code

theorem uncommented_pointFrom (symbol : String) (direction : Direction) (offset : UInt16) :
    uncommented (pointFrom symbol direction offset) = pointFrom symbol direction offset := by
  unfold pointFrom
  split
  · rfl
  · split
    · rw [uncommented_append]
      congr 1
      apply List.filter_eq_self.mpr
      intro entry member
      rw [List.eq_of_mem_replicate member]
      rfl
    · cases direction with
      | up => rfl
      | down => rfl

theorem uncommented_push (cell : Cell) : uncommented (Code.push cell) = Code.push cell := by
  cases cell with
  | indirect base offset =>
      rw [Code.push, uncommented_append, uncommented_append, uncommented_pointFrom]
      rfl
  | direct symbol => rfl
  | literal value =>
      rw [Code.push]
      split
      · rfl
      · split
        · rfl
        · rfl

theorem uncommented_pop (cell : Cell) : uncommented (Code.pop cell) = Code.pop cell := by
  cases cell with
  | indirect base offset =>
      rw [Code.pop]
      split
      · simp only [uncommented_append, uncommented_pointFrom]
        rfl
      · simp only [uncommented_append, uncommented_pointFrom]
        rfl
  | direct symbol => rfl
  | literal value => rfl

theorem uncommented_enter (name : String) (locals : UInt16) :
    uncommented (Code.enter name locals) = Code.enter name locals := by
  unfold Code.enter
  split
  · rfl
  · have zeros (count : Nat) : uncommented (List.replicate count pushData).flatten =
        (List.replicate count pushData).flatten := by
      induction count with
      | zero => rfl
      | succ count inductionHypothesis =>
          rw [List.replicate_succ, List.flatten_cons, uncommented_append, inductionHypothesis]
          rfl
    exact congrArg (fun rest => .label name :: set .d .zero :: rest) (zeros _)

/-- The code of a command has no comments. -/
theorem uncommented_code (scope : Scope) (label : String) (command : Command) :
    uncommented (command.code scope label) = command.code scope label := by
  cases command with
  | arithmetic operation => cases operation <;> rfl
  | push segment index => exact uncommented_push _
  | pop segment index => exact uncommented_pop _
  | function name locals => exact uncommented_enter name locals
  | _ => rfl

end Code

/-! ## Two drafts of a program -/

namespace Draft

/-- A draft with comments and one without them that are the same otherwise. -/
structure Alike (annotated plain : Draft) : Prop where
  numbers : annotated.numbers = plain.numbers
  entries : Listing.uncommented annotated.listing.toList = plain.listing.toList

variable {annotated plain : Draft} {bootstrap : Bool}

/-- A text may be noted and code without comments appended. -/
theorem Alike.entries_append (alike : annotated.Alike plain) (text : String) {code : Listing}
    (bare : code.uncommented = code) :
    Listing.uncommented (annotated.listing.toList ++ remark ⟨bootstrap, true⟩ text ++ code) =
      plain.listing.toList ++ remark ⟨bootstrap, false⟩ text ++ code := by
  rw [Listing.uncommented_append, Listing.uncommented_append, alike.entries, bare]
  rfl

theorem alike_start : Alike (start ⟨bootstrap, true⟩) (start ⟨bootstrap, false⟩) := by
  have empty : Alike ⟨#[], ∅⟩ ⟨#[], ∅⟩ := ⟨rfl, rfl⟩
  cases bootstrap with
  | false => exact empty
  | true =>
      unfold start
      rw [if_pos rfl, if_pos rfl]
      refine ⟨rfl, ?_⟩
      rw [toList_append, toList_append, toList_note, toList_note]
      exact empty.entries_append "bootstrap" rfl

/-- The numbers of labels are the same, and so is the code that is made with them. -/
theorem Alike.addSite (alike : annotated.Alike plain) (site : Site) :
    Alike (annotated.addSite ⟨bootstrap, true⟩ site) (plain.addSite ⟨bootstrap, false⟩ site) := by
  have sameCode : annotated.codeOf site = plain.codeOf site := by
    unfold codeOf ownLabel
    rw [alike.numbers]
  constructor
  · rw [numbers_addSite, numbers_addSite, alike.numbers]
  · rw [toList_addSite, toList_addSite, sameCode]
    exact alike.entries_append (caption site) (uncommented_code _ _ _)

theorem Alike.foldl (alike : annotated.Alike plain) (sites : List Site) :
    Alike (sites.foldl (Draft.addSite ⟨bootstrap, true⟩) annotated)
      (sites.foldl (Draft.addSite ⟨bootstrap, false⟩) plain) := by
  induction sites generalizing annotated plain with
  | nil => exact alike
  | cons site rest inductionHypothesis => exact inductionHypothesis (alike.addSite site)

theorem Alike.finish (alike : annotated.Alike plain) (sites : List Site) :
    Listing.uncommented (annotated.finish ⟨bootstrap, true⟩ sites).listing.toList =
      (plain.finish ⟨bootstrap, false⟩ sites).listing.toList := by
  unfold Draft.finish
  split
  · rw [toList_append, toList_append, toList_note, toList_note]
    exact alike.entries_append "shared return" rfl
  · exact alike.entries

end Draft

/-! ## Programs -/

/-- Comments are all that sets the two listings of a program apart. -/
theorem uncommented_listing (bootstrap : Bool) (sites : List Site) :
    Listing.uncommented (listing ⟨bootstrap, true⟩ sites) = listing ⟨bootstrap, false⟩ sites :=
  (Draft.alike_start.foldl sites).finish sites

/-- Take the files of a program, and translate them with and without comments.  Either both have errors,
and then the same, or both have a listing.  The one with comments becomes the other without them, and
the assembler gives the same words for both, or refuses both for the same reason, with at most the line
of the error moved. -/
theorem comments_change_nothing (bootstrap : Bool) (files : List File) :
    match translate ⟨bootstrap, true⟩ files, translate ⟨bootstrap, false⟩ files with
    | .ok annotated, .ok plain =>
      annotated.uncommented = plain ∧
        (assemble annotated).mapError AssemblyError.withoutLine =
          (assemble plain).mapError AssemblyError.withoutLine
    | .error errors, .error others => errors = others
    | _, _ => False := by
  unfold translate
  dsimp only
  cases Site.faults (Site.ofFiles files) with
  | nil =>
      have same := uncommented_listing bootstrap (Site.ofFiles files)
      refine ⟨same, ?_⟩
      rw [← same, assemble_uncommented]
  | cons fault rest => rfl

end Vm
end HackToolchain
