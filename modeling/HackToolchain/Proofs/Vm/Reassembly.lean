import HackToolchain.Proofs.Hack.Spelling
import HackToolchain.Proofs.Token.OneLine
import HackToolchain.Proofs.Vm.Spelling

namespace HackToolchain

/-!
# Programs as assembly text

A translated program is put out as text and assembled from there.  All that the translator writes is
assembly: its own symbols, the numbers of commands that can be read, and the names in them, for a name
of the stack language is one of assembly too.

The exception is the name of the file, which is given from outside and may be anything.  The symbols of
static variables begin with it, and so do the labels outside of functions; the labels of a comparison
outside of functions hold it behind a name of the translator's.  Of a program that is translated the
text is read back as the listing, and assembled to the same words or refused for the same reason, if
these file names go with the names of assembly.  If one of them does not, it is not read back.
-/

namespace Hack

/-! ## Names in an assembly source -/

/-- The name in an entry, if there is one. -/
def Instruction.name? : Instruction -> Option String
  | .symbol name | .label name => some name
  | _ => none

/-- The name in an entry, if there is one, is a name of assembly. -/
def Instruction.IsNamed (entry : Instruction) : Prop :=
  ∀ name, entry.name? = some name -> Dialect.asm.IsWord name.toList

theorem Instruction.isNamed_of_none {entry : Instruction} (nameless : entry.name? = none) :
    entry.IsNamed := by
  intro name names
  rw [nameless] at names
  cases names

theorem Instruction.isNamed_of_some {entry : Instruction} {name : String}
    (names : entry.name? = some name) (isWord : Dialect.asm.IsWord name.toList) : entry.IsNamed := by
  intro other same
  cases names.symm.trans same
  exact isWord

/-- A compute instruction holds no name. -/
theorem name?_of_operationOfText {destination : Destination} {text : String} {entry : Instruction}
    (read : operationOfText destination text = .ok entry) : entry.name? = none := by
  have built {computation : Except FieldError Computation} {jump : Option Jump}
      (read : (computation >>= fun computation =>
        pure (Instruction.compute destination computation jump)) = .ok entry) :
      entry.name? = none := by
    cases computation with
    | error problem => cases read
    | ok computation =>
        cases read
        rfl
  unfold operationOfText at read
  cases separated : splitAtFirst ';' text with
  | none =>
      rw [separated] at read
      exact built read
  | some parts =>
      rw [separated] at read
      dsimp only at read
      cases known : Jump.ofText parts.2 with
      | error problem =>
          rw [known] at read
          cases read
      | ok jump =>
          rw [known] at read
          exact built read

theorem name?_of_computeOfText {text : String} {entry : Instruction}
    (read : computeOfText text = .ok entry) : entry.name? = none := by
  unfold computeOfText at read
  cases separated : splitAtFirst '=' text with
  | none =>
      rw [separated] at read
      exact name?_of_operationOfText read
  | some parts =>
      rw [separated] at read
      dsimp only at read
      cases known : Destination.ofText parts.1 with
      | error problem =>
          rw [known] at read
          cases read
      | ok destination =>
          rw [known] at read
          exact name?_of_operationOfText read

section Entries

open Production

theorem finds_address : Source.address.Finds (Token.Identifies .asm) Instruction.IsNamed := by
  refine Finds.lookahead.bind fun token known => ?_
  generalize kind : token.kind = found
  split
  · refine Finds.advance.bind fun _ _ => ?_
    cases token.value? with
    | some value => exact .pure (Instruction.isNamed_of_none rfl)
    | none => exact .reject _
  · have identifies : token.Identifies .asm := known (by rw [kind]; exact nofun)
    exact Finds.advance.bind fun _ _ =>
      .pure (Instruction.isNamed_of_some rfl (identifies kind).word)
  · exact .rejectLookahead _

theorem finds_label : Source.label.Finds (Token.Identifies .asm) Instruction.IsNamed := by
  refine (Finds.expectLiteral (by decide)).bind fun name found => (Finds.expect _).bind fun _ _ =>
    .pure ?_
  obtain ⟨token, identifies, kind, rfl⟩ := found
  exact Instruction.isNamed_of_some rfl (identifies kind).word

theorem finds_compute : Source.compute.Finds (Token.Identifies .asm) Instruction.IsNamed := by
  intro cursor holds
  unfold Source.compute
  dsimp only
  split
  · rename_i entry read
    refine ⟨holds.advanceBy _, ?_⟩
    rintro _ ⟨⟩
    exact Instruction.isNamed_of_none (name?_of_computeOfText read)
  · refine ⟨holds.advanceBy _, ?_⟩
    rintro _ ⟨⟩

theorem finds_instruction : Source.instruction.Finds (Token.Identifies .asm) Instruction.IsNamed := by
  refine .bind .current fun token _ => ?_
  split
  · exact finds_address
  · exact finds_label
  · exact finds_compute
  · exact finds_compute
  · exact finds_compute
  · exact finds_compute
  · exact .reject _

end Entries

/-- All names in the entries that are read from a source are names of assembly. -/
theorem isWord_of_parse {source name : String} {entries : List (Located Instruction)}
    (read : parse source = .ok entries) {entry : Located Instruction} (member : entry ∈ entries)
    (names : entry.item.name? = some name) : Dialect.asm.IsWord name.toList :=
  mem_readLines_identifier finds_instruction read entry member name names

/-! ## Listings that can be written down -/

/-- All entries of the listing can be written down. -/
def Listing.IsWritable (listing : Listing) : Prop := ∀ entry ∈ listing, entry.IsWritable

instance : DecidablePred Listing.IsWritable := fun listing => List.decidableBAll _ listing

namespace Listing.IsWritable

theorem nil : IsWritable [] := List.forall_mem_nil _

theorem cons {entry : Instruction} {rest : Listing} (first : entry.IsWritable)
    (others : IsWritable rest) : IsWritable (entry :: rest) :=
  List.forall_mem_cons.mpr ⟨first, others⟩

theorem append {first second : Listing} (left : IsWritable first) (right : IsWritable second) :
    IsWritable (first ++ second) :=
  List.forall_mem_append.mpr ⟨left, right⟩

end Listing.IsWritable

end Hack

namespace Vm

open Hack

/-! ## Idioms -/

section Idioms

open Code

variable {symbol : String} (isWord : Dialect.asm.IsWord symbol.toList)
include isWord

theorem isWritable_load : (load symbol).IsWritable := .cons isWord (by decide)

theorem isWritable_store : (store symbol).IsWritable := .cons isWord (by decide)

theorem isWritable_jumpTo (operand : Operand) (condition : Jump) :
    (jumpTo symbol operand condition).IsWritable := by
  have listed : .operand operand ∈ Computation.all := by cases operand <;> decide
  exact .cons isWord (.cons listed .nil)

theorem isWritable_pointFrom (direction : Direction) {offset : UInt16}
    (small : offset.toNat ≤ maxInteger) : (pointFrom symbol direction offset).IsWritable := by
  have steps (count : Nat) : Listing.IsWritable
      (List.replicate count (setBinary .a .a direction.operator .one)) := by
    intro entry member
    rw [List.eq_of_mem_replicate member]
    cases direction <;> decide
  unfold pointFrom
  split
  · exact .cons isWord (by decide)
  · split
    · have stepped : (setBinary .a .m direction.operator .one).IsWritable := by
        cases direction <;> decide
      have begun : Listing.IsWritable [.symbol symbol, setBinary .a .m direction.operator .one] :=
        .cons isWord (.cons stepped .nil)
      exact begun.append (steps _)
    · have applied : direction.apply.IsWritable := by cases direction <;> decide
      exact .cons small (.cons (by decide) (.cons isWord (.cons applied .nil)))

/-- The two labels of a comparison are made from one. -/
theorem isWritable_compare (condition : Jump) : (Code.compare condition symbol).IsWritable := by
  have finish : Dialect.asm.IsWord (symbol ++ ".end").toList := by
    rw [String.toList_append]
    exact isWord.append (List.all_eq_true.mp (by decide))
  have difference : Listing.IsWritable (popData ++ lower ++ [setBinary .d .m .minus .d]) := by
    decide
  unfold Code.compare
  refine .append ?_ (.cons finish .nil)
  refine .append ?_ (by decide)
  refine .append ?_ (.cons isWord .nil)
  refine .append ?_ (isWritable_jumpTo finish .zero .always)
  refine .append ?_ (by decide)
  exact .append difference (isWritable_jumpTo isWord .d condition)

theorem isWritable_enter (locals : UInt16) : (enter symbol locals).IsWritable := by
  unfold enter
  refine .append (.cons isWord .nil) ?_
  split
  · exact .nil
  · refine .cons (by decide) ?_
    intro entry member
    obtain ⟨code, same, inside⟩ := List.mem_flatten.mp member
    rw [List.eq_of_mem_replicate same] at inside
    have pushed : pushData.IsWritable := by decide
    exact pushed entry inside

theorem isWritable_call {label : String} (isLabel : Dialect.asm.IsWord label.toList)
    {arguments : UInt16} (few : (arguments + 5).toNat ≤ maxInteger) :
    (Code.call symbol arguments label).IsWritable := by
  have returns : Listing.IsWritable [.symbol label, set .d .a] := .cons isLabel (by decide)
  have frame : Listing.IsWritable [.value (arguments + 5), set .d .a, .symbol "SP",
      setBinary .d .m .minus .d] := .cons few (by decide)
  unfold Code.call
  refine .append ?_ (.cons isLabel .nil)
  refine .append ?_ (isWritable_jumpTo isWord .zero .always)
  iterate 3 refine .append ?_ (by decide)
  refine .append ?_ frame
  iterate 2 refine .append ?_ (by decide)
  exact returns

end Idioms

theorem isWritable_bootstrap {label : String} (isLabel : Dialect.asm.IsWord label.toList) :
    (Code.bootstrap label).IsWritable := by
  unfold Code.bootstrap
  exact .append (by decide) (isWritable_call (by decide) isLabel (by decide))

theorem isWritable_operation {label : String} (operation : Operation)
    (isLabel : operation.labelName?.isSome = true -> Dialect.asm.IsWord label.toList) :
    (Code.operation label operation).IsWritable := by
  cases operation with
  | eq => exact isWritable_compare (isLabel rfl) _
  | gt => exact isWritable_compare (isLabel rfl) _
  | lt => exact isWritable_compare (isLabel rfl) _
  | _ =>
      rw [Code.operation]
      decide

/-- A cell whose symbol and number can be written down. -/
def Code.Cell.IsWritable : Code.Cell -> Prop
  | .indirect base offset => Dialect.asm.IsWord base.toList ∧ offset.toNat ≤ maxInteger
  | .direct symbol => Dialect.asm.IsWord symbol.toList
  | .literal value => value.toNat ≤ maxInteger

theorem isWritable_push {cell : Code.Cell} (writable : cell.IsWritable) :
    (Code.push cell).IsWritable := by
  cases cell with
  | indirect base offset =>
      rw [Code.push]
      iterate 2 refine .append ?_ (by decide)
      exact isWritable_pointFrom writable.1 .up writable.2
  | direct symbol => exact .append (isWritable_load writable) (by decide)
  | literal value =>
      rw [Code.push]
      split
      · decide
      · split
        · decide
        · have loaded : Listing.IsWritable [.value value, Code.set .d .a] :=
            .cons writable (by decide)
          exact .append loaded (by decide)

theorem isWritable_pop {cell : Code.Cell} (writable : cell.IsWritable) :
    (Code.pop cell).IsWritable := by
  have popped : Code.popData.IsWritable := by decide
  cases cell with
  | indirect base offset =>
      have pointed := isWritable_pointFrom writable.1 .up writable.2
      rw [Code.pop]
      split
      · exact .append (.append popped pointed) (by decide)
      · iterate 4 refine .append ?_ (by decide)
        exact pointed
  | direct symbol => exact popped.append (isWritable_store writable)
  | literal value => exact .nil

/-! ## What sites of sources have -/

/-- The function of a scope has the name of one. -/
def Scope.IsRead (scope : Scope) : Prop :=
  ∀ name, scope.function = some name -> Dialect.vm.IsIdentifier name

/-- A site as it comes from a source. -/
structure Site.IsRead (site : Site) : Prop where
  before : site.before.IsRead
  command : site.command.IsWritable

theorem Scope.IsRead.enter {scope : Scope} {command : Command} (isRead : scope.IsRead)
    (writable : command.IsWritable) : (scope.enter command).IsRead := by
  cases command with
  | function name locals =>
      rintro _ ⟨⟩
      exact writable.named name rfl
  | _ => exact isRead

theorem Site.IsRead.scope {site : Site} (isRead : site.IsRead) : site.scope.IsRead :=
  isRead.before.enter isRead.command

theorem isRead_ofCommands {scope : Scope} (begins : scope.IsRead) {commands : List (Located Command)}
    (writable : ∀ entry ∈ commands, entry.item.IsWritable) :
    ∀ site ∈ Site.ofCommands scope commands, site.IsRead := by
  induction commands generalizing scope with
  | nil => exact fun site member => absurd member List.not_mem_nil
  | cons entry rest inductionHypothesis =>
      obtain ⟨first, others⟩ := List.forall_mem_cons.mp writable
      exact List.forall_mem_cons.mpr
        ⟨⟨begins, first⟩, inductionHypothesis (begins.enter first) others⟩

theorem isRead_of_readFiles {sources : List (String × String)} {files : List File}
    (read : readFiles sources = .ok files) : ∀ site ∈ Site.ofFiles files, site.IsRead := by
  have known := forall_of_readFiles (fun _ _ parsed => mem_readLines_identifier finds_writable parsed) read
  intro site member
  obtain ⟨file, inside, member⟩ := List.mem_flatMap.mp member
  have begins : (Scope.ofFile file.name).IsRead := by rintro _ ⟨⟩
  exact isRead_ofCommands begins (known file inside).2 site member

/-! ## File names -/

/-- The name of the site's file goes with the names of assembly where the code of the site holds it: in
front of the index of a static variable, in front of a label outside of functions, and within the
labels of a comparison outside of functions. -/
def Site.IsSpellable (site : Site) : Prop :=
  match site.command with
  | .push .static _ | .pop .static _ => Dialect.asm.IsWord site.scope.file.toList
  | .label _ | .goto _ | .ifGoto _ =>
    site.scope.function = none -> Dialect.asm.IsWord site.scope.file.toList
  | .arithmetic operation =>
    operation.labelName?.isSome = true -> site.scope.function = none ->
      ∀ character ∈ site.scope.file.toList, Dialect.asm.continuesName character = true
  | _ => True

/-- A name of assembly can stand wherever a file name does. -/
theorem isSpellable_of_isWord {site : Site} (isWord : Dialect.asm.IsWord site.scope.file.toList) :
    site.IsSpellable := by
  unfold Site.IsSpellable
  split
  · exact isWord
  · exact isWord
  · exact fun _ => isWord
  · exact fun _ => isWord
  · exact fun _ => isWord
  · exact fun _ _ => isWord.continues
  · exact True.intro

/-! ## Symbols of a scope -/

section Symbols

variable {scope : Scope}

theorem isWord_staticSymbol (index : UInt16) (file : Dialect.asm.IsWord scope.file.toList) :
    Dialect.asm.IsWord (scope.staticSymbol index).toList := by
  unfold Scope.staticSymbol
  rw [String.toList_append, String.toList_append]
  exact (file.append (List.all_eq_true.mp (by decide))).append Dialect.continuesName_digit

/-- What holds of all names of assembly, and of the file's name where there is no function, holds of the
name that a scope's labels carry. -/
theorem Scope.IsRead.context {holds : List Char -> Prop} (isRead : scope.IsRead)
    (words : ∀ word, Dialect.asm.IsWord word -> holds word)
    (file : scope.function = none -> holds scope.file.toList) : holds scope.context.toList := by
  unfold Scope.context
  cases function : scope.function with
  | none => exact file function
  | some name => exact words _ (isRead name function).word.ofVm

theorem isWord_labelSymbol {label : String} (isRead : scope.IsRead)
    (file : scope.function = none -> Dialect.asm.IsWord scope.file.toList)
    (named : Dialect.vm.IsIdentifier label) :
    Dialect.asm.IsWord (scope.labelSymbol label).toList := by
  unfold Scope.labelSymbol
  rw [String.toList_append, String.toList_append]
  have context := isRead.context (fun _ isWord => isWord) file
  exact (context.append (List.all_eq_true.mp (by decide))).append named.word.ofVm.continues

end Symbols

theorem isWord_next (numbers : LabelNumbers) {base : String}
    (isWord : Dialect.asm.IsWord base.toList) :
    Dialect.asm.IsWord (numbers.next base).1.toList := by
  simp only [LabelNumbers.next, String.toList_append]
  exact (isWord.append (List.all_eq_true.mp (by decide))).append Dialect.continuesName_digit

theorem isWord_returnBase {function : String} (named : Dialect.vm.IsIdentifier function) :
    Dialect.asm.IsWord (returnBase function).toList := by
  have front : Dialect.asm.IsWord "$RET.".toList := by decide
  unfold returnBase
  rw [String.toList_append]
  exact front.append named.word.ofVm.continues

theorem isWord_comparisonBase {operation : Operation} {name context : String}
    (named : operation.labelName? = some name)
    (continues : ∀ character ∈ context.toList, Dialect.asm.continuesName character = true) :
    Dialect.asm.IsWord (comparisonBase name context).toList := by
  have front : Dialect.asm.IsWord ("$" ++ name ++ ".").toList := by
    cases operation <;> cases named <;> decide
  unfold comparisonBase
  rw [String.toList_append]
  exact front.append continues

theorem isWord_labelBase {site : Site} {base : String} (isRead : site.IsRead)
    (spellable : site.IsSpellable) (needs : site.labelBase? = some base) :
    Dialect.asm.IsWord base.toList := by
  unfold Site.labelBase? at needs
  unfold Site.IsSpellable at spellable
  split at needs
  · rename_i operation command
    rw [command] at spellable
    obtain ⟨name, named, rfl⟩ := Option.map_eq_some_iff.mp needs
    exact isWord_comparisonBase named (isRead.scope.context (fun _ isWord => isWord.continues)
      (spellable (by rw [named]; rfl)))
  · rename_i function arguments command
    cases needs
    exact isWord_returnBase (isRead.command.named function (by rw [command]; rfl))
  · cases needs

theorem isWord_ownLabel (draft : Draft) {site : Site} (isRead : site.IsRead)
    (spellable : site.IsSpellable) (needs : site.labelBase?.isSome = true) :
    Dialect.asm.IsWord (draft.ownLabel site).toList := by
  obtain ⟨base, same⟩ := Option.isSome_iff_exists.mp needs
  unfold Draft.ownLabel
  rw [same]
  exact isWord_next _ (isWord_labelBase isRead spellable same)

/-! ## Code of a site -/

theorem isWritable_cell {scope : Scope} {segment : Segment} {index : UInt16}
    (small : index.toNat ≤ maxInteger)
    (static : segment = .static -> Dialect.asm.IsWord scope.file.toList) :
    (Code.cell scope segment index).IsWritable := by
  cases segment with
  | static => exact isWord_staticSymbol index (static rfl)
  | constant => exact small
  | temp =>
      have front : Dialect.asm.IsWord "R".toList := by decide
      unfold Code.cell Code.tempSymbol Code.Cell.IsWritable
      dsimp only
      rw [String.toList_append]
      exact front.append Dialect.continuesName_digit
  | pointer =>
      unfold Code.cell Code.pointerSymbol Code.Cell.IsWritable
      dsimp only
      split <;> decide
  | _ => exact ⟨by decide, small⟩

theorem isWritable_codeOf (draft : Draft) {site : Site} (isRead : site.IsRead)
    (spellable : site.IsSpellable) (valid : site.command.fault? = none) :
    (draft.codeOf site).IsWritable := by
  have own := isWord_ownLabel draft isRead spellable
  have small := isRead.command.small
  have named := isRead.command.named
  unfold Draft.codeOf
  unfold Site.labelBase? at own
  unfold Site.IsSpellable at spellable
  cases command : site.command with
  | arithmetic operation =>
      rw [command] at own
      exact isWritable_operation operation fun needs => own (by rw [Option.isSome_map]; exact needs)
  | push segment index =>
      rw [command] at spellable small
      refine isWritable_push (isWritable_cell (small index rfl) ?_)
      rintro rfl
      exact spellable
  | pop segment index =>
      rw [command] at spellable small
      refine isWritable_pop (isWritable_cell (small index rfl) ?_)
      rintro rfl
      exact spellable
  | label name =>
      rw [command] at spellable
      exact .cons (isWord_labelSymbol isRead.scope spellable (named name (by rw [command]; rfl))) .nil
  | goto target =>
      rw [command] at spellable
      exact isWritable_jumpTo
        (isWord_labelSymbol isRead.scope spellable (named target (by rw [command]; rfl))) _ _
  | ifGoto target =>
      rw [command] at spellable
      exact .append (by decide) (isWritable_jumpTo
        (isWord_labelSymbol isRead.scope spellable (named target (by rw [command]; rfl))) _ _)
  | function name locals =>
      exact isWritable_enter (named name (by rw [command]; rfl)).word.ofVm locals
  | call name arguments =>
      rw [command] at own valid
      exact isWritable_call (named name (by rw [command]; rfl)).word.ofVm (own rfl) (few_of_fault? valid)
  | «return» => exact isWritable_jumpTo (by decide) _ _

/-! ## Comments -/

/-- The text of a command stands on one line. -/
theorem Command.isOneLine_text {command : Command} (writable : command.IsWritable) :
    IsOneLine command.text.toList := by
  have blank : IsOneLine [' '] := by decide
  have named {name : String} (isWord : Dialect.vm.IsWord name.toList) :
      IsOneLine (' ' :: name.toList) := blank.append isWord.ofVm.isOneLine
  have numbered {name : String} (isWord : Dialect.vm.IsWord name.toList) (number : UInt16) :
      IsOneLine (' ' :: (name.toList ++ ' ' :: (toString number.toNat).toList)) :=
    (named isWord).append (blank.append (isOneLine_toString number.toNat))
  have word {name : String} (names : command.name? = some name) : Dialect.vm.IsWord name.toList :=
    (writable.named name names).word
  rw [toList_text]
  refine .append (Scans.reserved_word command.keyword_mem).1.ofVm.isOneLine ?_
  cases command with
  | arithmetic operation => exact List.forall_mem_nil _
  | «return» => exact List.forall_mem_nil _
  | push segment index => exact numbered (isIdentifier_segment segment).word index
  | pop segment index => exact numbered (isIdentifier_segment segment).word index
  | label name => exact named (word rfl)
  | goto name => exact named (word rfl)
  | ifGoto name =>
      have hyphen : IsOneLine ('-' :: Keyword.goto.text.toList) := by decide
      exact hyphen.append (named (word rfl))
  | function name number => exact numbered (word rfl) number
  | call name number => exact numbered (word rfl) number

/-- The caption of a site stands on one line if the name of its file does. -/
theorem isOneLine_caption {site : Site} (isRead : site.IsRead)
    (file : IsOneLine site.scope.file.toList) : IsOneLine (Draft.caption site).toList := by
  have context : IsOneLine site.before.context.toList :=
    isRead.before.context (fun _ isWord => isWord.isOneLine) fun _ =>
      site.before.file_enter site.command ▸ file
  unfold Draft.caption
  simp only [String.toList_append]
  refine .append (.append (.append (.append (.append context ?_) ?_) ?_) ?_) ?_
  · decide
  · exact isOneLine_toString site.line
  · decide
  · exact Command.isOneLine_text isRead.command
  · decide

/-! ## The listing of a program -/

section Translated

variable {options : Options} {sites : List Site}

/-- If file names go with the names of assembly, all of a listing can be written down. -/
theorem isWritable_listing (isRead : ∀ site ∈ sites, site.IsRead)
    (oneLine : ∀ site ∈ sites, IsOneLine site.scope.file.toList)
    (valid : ∀ site ∈ sites, site.command.fault? = none)
    (spellable : ∀ site ∈ sites, site.IsSpellable) :
    Listing.IsWritable (listing options sites) := by
  refine listing_induction Listing.IsWritable options sites ?append ?nil ?comment ?bootstrap ?code
    ?sharedReturn
  case append => exact fun _ _ left right => left.append right
  case nil => exact .nil
  case comment =>
    intro text isRemark
    refine .cons ?_ .nil
    rcases isRemark with rfl | rfl | ⟨site, member, rfl⟩
    · decide
    · decide
    · exact isOneLine_caption (isRead site member) (oneLine site member)
  case bootstrap =>
    exact fun _ numbers => isWritable_bootstrap (isWord_next numbers (by decide))
  case code =>
    exact fun draft site member =>
      isWritable_codeOf draft (isRead site member) (spellable site member) (valid site member)
  case sharedReturn => decide

/-- What is read back from a listing's text has only names of assembly. -/
theorem isWord_of_readBack {code : Listing} (readBack : Hack.parse (Listing.text code) =
      .ok ((located code).filter fun entry => !entry.item.isComment))
    {entry : Instruction} (member : entry ∈ code) {name : String} (names : entry.name? = some name) :
    Dialect.asm.IsWord name.toList := by
  rw [← entries_located code] at member
  obtain ⟨line, inside, rfl⟩ := List.mem_map.mp member
  refine isWord_of_parse readBack (List.mem_filter.mpr ⟨inside, ?_⟩) names
  cases content : line.item with
  | comment text =>
      rw [content] at names
      cases names
  | _ => rfl

/-- The labels of a comparison outside of functions hold the name of the file. -/
theorem mem_ownLabel (draft : Draft) {site : Site} {operation : Operation}
    (command : site.command = .arithmetic operation) (compares : operation.labelName?.isSome = true)
    (outside : site.scope.function = none) {character : Char}
    (inFile : character ∈ site.scope.file.toList) : character ∈ (draft.ownLabel site).toList := by
  obtain ⟨name, named⟩ := Option.isSome_iff_exists.mp compares
  have base : site.labelBase? = some (comparisonBase name site.scope.file) := by
    rw [Site.labelBase?, command, Scope.context, outside]
    exact congrArg (Option.map fun name => comparisonBase name site.scope.file) named
  unfold Draft.ownLabel
  rw [base]
  simp [LabelNumbers.next, comparisonBase, inFile]

/-- If the listing is read back, file names go with the names of assembly. -/
theorem isSpellable_of_readBack (readBack : Hack.parse (Listing.text (listing options sites)) =
      .ok ((located (listing options sites)).filter fun entry => !entry.item.isComment))
    {site : Site} (member : site ∈ sites) (named : site.scope.file ≠ "") : site.IsSpellable := by
  obtain ⟨position, found⟩ := List.getElem?_of_mem member
  let draft := Draft.upTo options sites position
  have spelled {entry : Instruction} {name : String} (inside : entry ∈ draft.codeOf site)
      (names : entry.name? = some name) : Dialect.asm.IsWord name.toList :=
    isWord_of_readBack readBack
      ((Draft.prefix_site options found).subset (List.mem_append_right _ inside)) names
  have nonempty : site.scope.file.toList ≠ [] := fun empty => named (String.toList_eq_nil_iff.mp empty)
  have ofStatic {index : UInt16} (isWord : Dialect.asm.IsWord (site.scope.staticSymbol index).toList) :
      Dialect.asm.IsWord site.scope.file.toList := by
    unfold Scope.staticSymbol at isWord
    rw [String.toList_append, String.toList_append, List.append_assoc] at isWord
    exact isWord.of_append nonempty
  have ofLabel {label : String} (isWord : Dialect.asm.IsWord (site.scope.labelSymbol label).toList)
      (outside : site.scope.function = none) : Dialect.asm.IsWord site.scope.file.toList := by
    unfold Scope.labelSymbol Scope.context at isWord
    rw [outside, String.toList_append, String.toList_append, List.append_assoc] at isWord
    exact isWord.of_append nonempty
  unfold Draft.codeOf at spelled
  unfold Site.IsSpellable
  split
  · rename_i index command
    rw [command] at spelled
    exact ofStatic (spelled (List.mem_append_left _ List.mem_cons_self) rfl)
  · rename_i index command
    rw [command] at spelled
    exact ofStatic (spelled (List.mem_append_right _ List.mem_cons_self) rfl)
  · rename_i label command
    rw [command] at spelled
    exact ofLabel (spelled List.mem_cons_self rfl)
  · rename_i label command
    rw [command] at spelled
    exact ofLabel (spelled List.mem_cons_self rfl)
  · rename_i label command
    rw [command] at spelled
    exact ofLabel (spelled (List.mem_append_right _ List.mem_cons_self) rfl)
  · rename_i operation command
    intro compares outside character inFile
    rw [command] at spelled
    have labels : .label (draft.ownLabel site) ∈ Code.operation (draft.ownLabel site) operation := by
      cases operation with
      | eq | gt | lt => simp [Code.operation, Code.compare]
      | _ => cases compares
    exact (spelled labels rfl).continues character (mem_ownLabel draft command compares outside inFile)
  · exact True.intro

end Translated

/-! ## Translated sources -/

/-- The sources of a translated program can be read, and the program has no faults. -/
theorem readFiles_of_translateSources {options : Options} {sources : List (String × String)}
    {code : Listing} (translated : translateSources options sources = .ok code) :
    ∃ files, readFiles sources = .ok files ∧ translate options files = .ok code := by
  cases read : readFiles sources with
  | error errors =>
      rw [translateSources, read] at translated
      cases translated
  | ok files => exact ⟨files, rfl, translateSources_ok read translated⟩

/-- Take sources that are translated, whose files have names that are not empty and stand on one line.
The text of the listing is read back as the listing's entries without the comments, each with its place
in the listing, exactly if all file names go with the names of assembly where the code holds them.  In
that case the assembler gives the same words for the text as for the listing, or refuses both for the
same reason.  That is the case whenever every file name is a name of assembly. -/
theorem text_of_translation {options : Options} {sources : List (String × String)} {code : Listing}
    (named : ∀ source ∈ sources, source.1 ≠ "" ∧ IsOneLine source.1.toList)
    (translated : translateSources options sources = .ok code) :
    ∃ files, readFiles sources = .ok files ∧
      (Hack.parse (Listing.text code) =
          .ok ((located code).filter fun entry => !entry.item.isComment) ↔
        ∀ site ∈ Site.ofFiles files, site.IsSpellable) ∧
      ((∀ site ∈ Site.ofFiles files, site.IsSpellable) ->
        assembleSource (Listing.text code) = assemble code) ∧
      ((∀ source ∈ sources, Dialect.asm.IsWord source.1.toList) ->
        ∀ site ∈ Site.ofFiles files, site.IsSpellable) := by
  obtain ⟨files, read, translated⟩ := readFiles_of_translateSources translated
  obtain ⟨rfl, valid⟩ := translate_ok translated
  have isRead := isRead_of_readFiles read
  have given (site : Site) (member : site ∈ Site.ofFiles files) :
      ∃ source ∈ sources, source.1 = site.scope.file := by
    obtain ⟨file, inside, sameFile, -⟩ := mem_ofFiles member
    obtain ⟨source, among, sameName⟩ := List.mem_map.mp (isReadable_of_readFiles read file inside).1
    exact ⟨source, among, sameName.trans sameFile.symm⟩
  have nonempty (site : Site) (member : site ∈ Site.ofFiles files) : site.scope.file ≠ "" := by
    obtain ⟨source, among, same⟩ := given site member
    exact same ▸ (named source among).1
  have oneLine (site : Site) (member : site ∈ Site.ofFiles files) :
      IsOneLine site.scope.file.toList := by
    obtain ⟨source, among, same⟩ := given site member
    exact same ▸ (named source among).2
  have writable : (∀ site ∈ Site.ofFiles files, site.IsSpellable) ->
      Listing.IsWritable (listing options (Site.ofFiles files)) :=
    isWritable_listing isRead oneLine valid
  refine ⟨files, read, ⟨?readBack, ?spelled⟩, ?assembled, ?words⟩
  case readBack =>
    exact fun same site member => isSpellable_of_readBack same member (nonempty site member)
  case spelled => exact fun spellable => parse_text (writable spellable)
  case assembled => exact fun spellable => assembleSource_text (writable spellable)
  case words =>
    intro isWord site member
    obtain ⟨source, among, same⟩ := given site member
    exact isSpellable_of_isWord (same ▸ isWord source among)

/-- A comparison of two static variables is the same as a text, comments and all. -/
theorem text_of_comparison :
    let source := "push static 0\npush static 1\neq\n"
    ∃ code, translateSources ⟨false, true⟩ [("Main", source)] = .ok code ∧
      Hack.parse (Listing.text code) =
        .ok ((located code).filter fun entry => !entry.item.isComment) ∧
      assembleSource (Listing.text code) = assemble code := by
  intro source
  have done : (translateSources ⟨false, true⟩ [("Main", source)]).isOk = true := by decide
  cases translated : translateSources ⟨false, true⟩ [("Main", source)] with
  | error errors =>
      rw [translated] at done
      cases done
  | ok code =>
      obtain ⟨files, -, readBack, assembled, spelled⟩ := text_of_translation (by decide) translated
      have spellable := spelled (by decide)
      exact ⟨code, rfl, readBack.mpr spellable, assembled spellable⟩

/-- Text and listing differ for a file whose name has a blank: the text is not assembled, the listing
is.  So not every translated program is the same as a text. -/
theorem blank_in_file_name :
    ¬∀ (options : Options) (sources : List (String × String)) (code : Listing),
      (∀ source ∈ sources, source.1 ≠ "" ∧ '/' ∉ source.1.toList ∧ IsOneLine source.1.toList) ->
      translateSources options sources = .ok code ->
        assembleSource (Listing.text code) = assemble code := by
  intro same
  let code : Listing := Code.push (.direct "my file.0")
  have translated : translateSources {} [("my file", "push static 0\n")] = .ok code := by decide
  have refused : (assembleSource (Listing.text code)).isOk = false := by decide
  have assembled : (assemble code).isOk = true := by decide
  rw [same {} _ code (by decide) translated, assembled] at refused
  cases refused

end Vm
end HackToolchain
