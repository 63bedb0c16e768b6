import HackToolchain.Proofs.Hack.Binding
import HackToolchain.Proofs.Text.Numbered
import HackToolchain.Vm.Program

namespace HackToolchain
namespace Vm

open Hack

/-!
# The layout of a program

A listing is laid out site by site, so the code of every site has a place in instruction memory: the
number of words in front of it.  These places are what positions of a program become.  The code of a
position ends where the code of the next one begins, because only comments stand between them.

A listing has three sources of labels: functions, labels of scopes, and the translator's own, of
which the latter two hold a dollar sign.  So a symbol without one is a label only if a function has
that name.  Most of a listing is not symbols: at most every other word uses one, which keeps the
variables of a program that fits into instruction memory within data memory.
-/

/-! ## Drafts -/

namespace Draft

/-- The comment in front of a piece of code, if comments are wanted. -/
def remark (options : Options) (text : String) : Listing :=
  if options.annotate then [.comment text] else []

theorem toList_note (options : Options) (text : String) (draft : Draft) :
    (draft.note options text).listing.toList = draft.listing.toList ++ remark options text := by
  unfold note remark
  by_cases annotate : options.annotate = true
  · rw [if_pos annotate, if_pos annotate, Array.toList_push]
  · rw [if_neg annotate, if_neg annotate, List.append_nil]

theorem toList_append (draft : Draft) (code : Listing) :
    (draft.append code).listing.toList = draft.listing.toList ++ code :=
  Array.toList_appendList

theorem size_remark (options : Options) (text : String) :
    Listing.size (remark options text) = 0 := by
  unfold remark
  by_cases annotate : options.annotate = true
  · rw [if_pos annotate]
    rfl
  · rw [if_neg annotate]
    rfl

/-- The label that a site gets for itself. -/
def ownLabel (draft : Draft) (site : Site) : String :=
  match site.labelBase? with
  | some base => (draft.numbers.next base).1
  | none => ""

/-- The code that a site gets. -/
def codeOf (draft : Draft) (site : Site) : Listing :=
  site.command.code site.scope (draft.ownLabel site)

theorem toList_addSite (options : Options) (draft : Draft) (site : Site) :
    (draft.addSite options site).listing.toList =
      draft.listing.toList ++ remark options (caption site) ++ draft.codeOf site := by
  unfold addSite codeOf ownLabel
  cases base : site.labelBase? with
  | none => simp only [toList_append, toList_note]
  | some base =>
      have numbers : (draft.note options (caption site)).numbers = draft.numbers := by
        unfold note
        split <;> rfl
      simp only [numbers, toList_append, toList_note]

/-- The draft when the sites in front of a position have been added. -/
def upTo (options : Options) (sites : List Site) (position : Nat) : Draft :=
  (sites.take position).foldl (addSite options) (start options)

theorem upTo_succ (options : Options) {sites : List Site} {position : Nat} {site : Site}
    (found : sites[position]? = some site) :
    upTo options sites (position + 1) = (upTo options sites position).addSite options site := by
  rw [upTo, List.take_add_one, found, List.foldl_append]
  rfl

/-- Adding sites keeps what is there. -/
theorem prefix_foldl (options : Options) (draft : Draft) (sites : List Site) :
    draft.listing.toList <+: (sites.foldl (addSite options) draft).listing.toList := by
  induction sites generalizing draft with
  | nil => exact List.prefix_rfl
  | cons site rest inductionHypothesis =>
      refine List.IsPrefix.trans ?_ (inductionHypothesis _)
      rw [toList_addSite, List.append_assoc]
      exact List.prefix_append _ _

theorem prefix_finish (options : Options) (draft : Draft) (sites : List Site) :
    draft.listing.toList <+: (draft.finish options sites).listing.toList := by
  unfold finish
  split
  · rw [toList_append, toList_note, List.append_assoc]
    exact List.prefix_append _ _
  · exact List.prefix_rfl

/-- Every draft on the way is a beginning of the listing. -/
theorem prefix_listing (options : Options) (sites : List Site) (position : Nat) :
    (upTo options sites position).listing.toList <+: Vm.listing options sites := by
  refine List.IsPrefix.trans ?_ (prefix_finish options _ sites)
  have parts : sites.foldl (addSite options) (start options) =
      (sites.drop position).foldl (addSite options) (upTo options sites position) := by
    rw [upTo, ← List.foldl_append, List.take_append_drop]
  rw [parts]
  exact prefix_foldl options _ _

/-- The listing up to a site, the site's comment and its code begin the listing. -/
theorem prefix_site (options : Options) {sites : List Site} {position : Nat} {site : Site}
    (found : sites[position]? = some site) :
    (upTo options sites position).listing.toList ++ remark options (caption site) ++
      (upTo options sites position).codeOf site <+: Vm.listing options sites := by
  rw [← toList_addSite, ← upTo_succ options found]
  exact prefix_listing options sites (position + 1)

end Draft

/-! ## Places -/

/-- The place in instruction memory where the code of a position begins. -/
def place (options : Options) (sites : List Site) (position : Nat) : Nat :=
  Listing.size (Draft.upTo options sites position).listing.toList

section Places

variable {image : List UInt16} {binding : String -> UInt16} {options : Options}
  {sites : List Site}

/-- A piece of a placed listing stands behind the words in front of it. -/
theorem placed_of_prefix {whole before piece : Listing} (placed : Placed image binding 0 whole)
    (beginning : before ++ piece <+: whole) :
    Placed image binding (Listing.size before) piece := by
  rcases beginning with ⟨rest, rfl⟩
  have behind := placed.left.right
  rwa [Nat.zero_add] at behind

/-- The code of a site stands at its place and reaches up to the next one. -/
theorem placed_code {position : Nat} {site : Site}
    (placed : Placed image binding 0 (listing options sites))
    (found : sites[position]? = some site) :
    ∃ label, Placed image binding (place options sites position)
        (site.command.code site.scope label) ∧
      place options sites (position + 1) =
        place options sites position + Listing.size (site.command.code site.scope label) := by
  have here := placed_of_prefix placed (Draft.prefix_site options found)
  rw [Listing.size_append, Draft.size_remark, Nat.add_zero] at here
  refine ⟨_, here, ?_⟩
  rw [place, Draft.upTo_succ options found, Draft.toList_addSite, Listing.size_append,
    Listing.size_append, Draft.size_remark, Nat.add_zero]
  rfl

/-- The routine that all returns share stands behind the last site. -/
theorem placed_sharedReturn (placed : Placed image binding 0 (listing options sites))
    {site : Site} (member : site ∈ sites) (returns : site.command = .«return») :
    Placed image binding (place options sites sites.length) Code.sharedReturn := by
  have some : (sites.any fun site => site.command == .«return») = true :=
    List.any_eq_true.mpr ⟨site, member, by rw [returns]; rfl⟩
  have whole : (Draft.upTo options sites sites.length).listing.toList ++
      Draft.remark options "shared return" ++ Code.sharedReturn = listing options sites := by
    rw [listing, Draft.finish, if_pos some, Draft.toList_append, Draft.toList_note, Draft.upTo,
      List.take_length]
  have here := placed_of_prefix placed ⟨[], by rw [List.append_nil]; exact whole⟩
  rwa [Listing.size_append, Draft.size_remark, Nat.add_zero] at here

end Places

/-! ## Pieces -/

/-- The text of a comment that a listing may have. -/
def IsRemark (sites : List Site) (text : String) : Prop :=
  text = "bootstrap" ∨ text = "shared return" ∨ ∃ site ∈ sites, text = Draft.caption site

/-- What holds of every piece that a listing is put together from, and of two pieces one behind the
other if it holds of each, holds of the listing. -/
theorem listing_induction (holds : Listing -> Prop) (options : Options) (sites : List Site)
    (append : ∀ first second, holds first -> holds second -> holds (first ++ second))
    (nil : holds []) (comment : ∀ text, IsRemark sites text -> holds [.comment text])
    (bootstrap : options.bootstrap = true -> ∀ numbers : LabelNumbers,
      holds (Code.bootstrap (numbers.next (returnBase Code.entryPoint)).1))
    (code : ∀ draft : Draft, ∀ site ∈ sites, holds (draft.codeOf site))
    (sharedReturn : holds Code.sharedReturn) : holds (listing options sites) := by
  have remark {text : String} (isRemark : IsRemark sites text) :
      holds (Draft.remark options text) := by
    unfold Draft.remark
    split
    · exact comment text isRemark
    · exact nil
  have start : holds (Draft.start options).listing.toList := by
    unfold Draft.start
    split
    · rename_i wanted
      rw [Draft.toList_append]
      exact append _ _ (Draft.toList_note options _ _ ▸ append _ _ nil (remark (.inl rfl)))
        (bootstrap wanted _)
    · exact nil
  have added (draft : Draft) (begun : holds draft.listing.toList) (rest : List Site)
      (members : ∀ site ∈ rest, site ∈ sites) :
      holds (rest.foldl (Draft.addSite options) draft).listing.toList := by
    induction rest generalizing draft with
    | nil => exact begun
    | cons site rest inductionHypothesis =>
        have inside := members site List.mem_cons_self
        refine inductionHypothesis _ ?_ fun other member =>
          members other (List.mem_cons_of_mem _ member)
        rw [Draft.toList_addSite]
        exact append _ _ (append _ _ begun (remark (.inr (.inr ⟨site, inside, rfl⟩))))
          (code draft site inside)
  have all := added (Draft.start options) start sites fun _ member => member
  unfold listing Draft.finish
  split
  · rw [Draft.toList_append, Draft.toList_note]
    exact append _ _ (append _ _ all (remark (.inr (.inl rfl)))) sharedReturn
  · exact all

/-! ## Labels -/

/-- The labels that the code of a command defines.  Some are made from a label of the command's
own. -/
def Command.labels (scope : Scope) (label : String) : Command -> List String
  | .arithmetic operation => if operation.labelName?.isSome then [label, label ++ ".end"] else []
  | .label name => [scope.labelSymbol name]
  | .function name _ => [name]
  | .call _ _ => [label]
  | _ => []

section Labels

open Listing Code

theorem labels_pointFrom (symbol : String) (direction : Direction) (offset : UInt16) :
    labels (pointFrom symbol direction offset) = [] := by
  unfold pointFrom
  split
  · rfl
  · split
    · rw [labels_append]
      refine List.filterMap_eq_nil_iff.mpr ?_
      intro entry member
      rw [List.eq_of_mem_replicate member]
      rfl
    · cases direction <;> rfl

theorem labels_push (cell : Cell) : labels (Code.push cell) = [] := by
  cases cell with
  | indirect base offset =>
      simp only [Code.push, labels_append, labels_pointFrom]
      rfl
  | direct symbol => rfl
  | literal value =>
      rw [Code.push]
      split
      · rfl
      · split <;> rfl

theorem labels_pop (cell : Cell) : labels (Code.pop cell) = [] := by
  cases cell with
  | indirect base offset =>
      rw [Code.pop]
      split
      · simp only [labels_append, labels_pointFrom]
        rfl
      · simp only [labels_append, labels_pointFrom]
        rfl
  | direct symbol => rfl
  | literal value => rfl

theorem labels_enter (name : String) (locals : UInt16) : labels (Code.enter name locals) = [name] := by
  unfold Code.enter
  split
  · rfl
  · have zeros (count : Nat) : labels (List.replicate count pushData).flatten = [] := by
      induction count with
      | zero => rfl
      | succ count inductionHypothesis =>
          rw [List.replicate_succ, List.flatten_cons, labels_append, inductionHypothesis]
          rfl
    exact congrArg (name :: ·) (zeros _)

theorem labels_code (scope : Scope) (label : String) (command : Command) :
    labels (command.code scope label) = command.labels scope label := by
  cases command with
  | arithmetic operation => cases operation <;> rfl
  | push segment index => exact labels_push _
  | pop segment index => exact labels_pop _
  | label name => rfl
  | goto target => rfl
  | ifGoto target => rfl
  | function name locals => exact labels_enter name locals
  | call name arguments => rfl
  | «return» => rfl

end Labels

/-- The labels that the translator makes hold a dollar sign. -/
theorem dollar_next (numbers : LabelNumbers) (base : String) (dollar : '$' ∈ base.toList) :
    '$' ∈ (numbers.next base).1.toList := by
  simp only [LabelNumbers.next, String.toList_append, List.mem_append]
  exact .inl (.inl dollar)

theorem dollar_ownLabel (draft : Draft) (site : Site) (needs : site.labelBase?.isSome = true) :
    '$' ∈ (draft.ownLabel site).toList := by
  unfold Draft.ownLabel
  cases base : site.labelBase? with
  | none =>
      rw [base] at needs
      cases needs
  | some base' =>
      refine dollar_next _ _ ?_
      unfold Site.labelBase? at base
      split at base
      · rcases Option.map_eq_some_iff.mp base with ⟨name, -, rfl⟩
        simp [comparisonBase]
      · cases base
        simp [returnBase]
      · cases base

/-- Whether a label may have a name: one with a dollar sign, or that of a function. -/
def MayLabel (sites : List Site) (name : String) : Prop :=
  '$' ∈ name.toList ∨ ∃ site ∈ sites, ∃ locals, site.command = .function name locals

theorem mayLabel_code (draft : Draft) {sites : List Site} {site : Site} (inside : site ∈ sites)
    {name : String} (member : name ∈ (draft.codeOf site).labels) : MayLabel sites name := by
  rw [Draft.codeOf, labels_code] at member
  have own (needs : site.labelBase?.isSome = true) := dollar_ownLabel draft site needs
  cases command : site.command with
  | arithmetic operation =>
      rw [command, Command.labels] at member
      split at member
      · rename_i compares
        have dollar := own (by
          rw [Site.labelBase?, command, Option.isSome_map]
          exact compares)
        rcases List.mem_cons.mp member with rfl | member
        · exact .inl dollar
        · rw [List.mem_singleton.mp member, MayLabel, String.toList_append]
          exact .inl (List.mem_append_left _ dollar)
      · cases member
  | label label =>
      rw [command] at member
      rw [List.mem_singleton.mp member]
      exact .inl (by simp [Scope.labelSymbol])
  | function function locals =>
      rw [command] at member
      rw [List.mem_singleton.mp member]
      exact .inr ⟨site, inside, locals, command⟩
  | call function arguments =>
      rw [command] at member
      rw [List.mem_singleton.mp member]
      exact .inl (own (by rw [Site.labelBase?, command]; rfl))
  | _ =>
      rw [command] at member
      cases member

/-- A label of a listing holds a dollar sign unless it is the name of a function. -/
theorem mayLabel_listing (options : Options) (sites : List Site) :
    ∀ name ∈ (listing options sites).labels, MayLabel sites name := by
  refine listing_induction (fun code => ∀ name ∈ code.labels, MayLabel sites name) options sites
    ?append ?nil ?comment ?bootstrap ?code ?sharedReturn
  case append =>
    intro first second inFirst inSecond name member
    rcases List.mem_append.mp (Listing.labels_append first second ▸ member) with before | behind
    · exact inFirst name before
    · exact inSecond name behind
  case nil => exact fun _ member => absurd member List.not_mem_nil
  case comment => exact fun _ _ _ member => absurd member List.not_mem_nil
  case bootstrap =>
    intro _ numbers name member
    rw [List.mem_singleton.mp member]
    exact .inl (dollar_next numbers _ (by simp [returnBase]))
  case code => exact fun draft site inside name member => mayLabel_code draft inside member
  case sharedReturn =>
    intro name member
    rw [List.mem_singleton.mp member]
    exact .inl (by decide)

/-! ## Variables -/

section Variables

open Code

/-- Of the words of a piece of code, at most every other one is made from a symbol. -/
def Balanced (code : Listing) : Prop := 2 * symbolCount code ≤ Listing.size code

theorem Balanced.append {first second : Listing} (left : Balanced first)
    (right : Balanced second) : Balanced (first ++ second) := by
  unfold Balanced at *
  rw [symbolCount_append, Listing.size_append]
  omega

/-- The code is short enough to be counted by computing. -/
theorem Balanced.ofCount {code : Listing}
    (counted : Nat.ble (2 * symbolCount code) (Listing.size code) = true) : Balanced code :=
  Nat.le_of_ble_eq_true counted

theorem balanced_repeat {code : Listing} (balanced : Balanced code) (count : Nat) :
    Balanced (List.replicate count code).flatten := by
  induction count with
  | zero => exact .ofCount rfl
  | succ count inductionHypothesis => exact balanced.append inductionHypothesis

theorem balanced_pointFrom (symbol : String) (direction : Direction) (offset : UInt16) :
    Balanced (pointFrom symbol direction offset) := by
  unfold pointFrom
  split
  · exact .ofCount rfl
  · split
    · refine .append (.ofCount rfl) ?_
      have single : Balanced [setBinary .a .a direction.operator .one] := .ofCount rfl
      generalize offset.toNat - 1 = count
      induction count with
      | zero => exact .ofCount rfl
      | succ count inductionHypothesis => exact single.append inductionHypothesis
    · cases direction <;> exact .ofCount rfl

theorem balanced_push (cell : Cell) : Balanced (Code.push cell) := by
  cases cell with
  | indirect base offset =>
      exact ((balanced_pointFrom base .up offset).append (.ofCount rfl)).append (.ofCount rfl)
  | direct symbol => exact .ofCount rfl
  | literal value =>
      rw [Code.push]
      split
      · exact .ofCount rfl
      · split <;> exact .ofCount rfl

theorem balanced_pop (cell : Cell) : Balanced (Code.pop cell) := by
  cases cell with
  | indirect base offset =>
      have pointed := balanced_pointFrom base .up offset
      rw [Code.pop]
      split
      · exact (Balanced.append (.ofCount rfl) pointed).append (.ofCount rfl)
      · exact (((pointed.append (.ofCount rfl)).append (.ofCount rfl)).append
          (.ofCount rfl)).append (.ofCount rfl)
  | direct symbol => exact .ofCount rfl
  | literal value => exact .ofCount rfl

theorem balanced_enter (name : String) (locals : UInt16) : Balanced (Code.enter name locals) := by
  have entry : Balanced [.label name] := .ofCount rfl
  have zero : Balanced [set .d .zero] := .ofCount rfl
  unfold Code.enter
  refine entry.append ?_
  split
  · exact .ofCount rfl
  · exact zero.append (balanced_repeat (.ofCount rfl) _)

theorem balanced_compare (condition : Jump) (label : String) :
    Balanced (Code.compare condition label) := by
  unfold Code.compare
  iterate 8 refine Balanced.append ?_ (.ofCount rfl)
  exact .ofCount rfl

theorem balanced_call (name : String) (arguments : UInt16) (label : String) :
    Balanced (Code.call name arguments label) := by
  unfold Code.call
  iterate 7 refine Balanced.append ?_ (.ofCount rfl)
  exact .ofCount rfl

theorem balanced_bootstrap (label : String) : Balanced (Code.bootstrap label) := by
  unfold Code.bootstrap
  refine Balanced.append ?_ (balanced_call _ _ _)
  iterate 5 refine Balanced.append ?_ (.ofCount rfl)
  exact .ofCount rfl

theorem balanced_sharedReturn : Balanced Code.sharedReturn := .ofCount (by decide)

theorem balanced_operation (label : String) (operation : Operation) :
    Balanced (Code.operation label operation) := by
  cases operation with
  | eq => exact balanced_compare _ _
  | gt => exact balanced_compare _ _
  | lt => exact balanced_compare _ _
  | _ => exact .ofCount rfl

theorem balanced_code (scope : Scope) (label : String) (command : Command) :
    Balanced (command.code scope label) := by
  cases command with
  | arithmetic operation => exact balanced_operation _ _
  | push segment index => exact balanced_push _
  | pop segment index => exact balanced_pop _
  | label name => exact .ofCount rfl
  | goto target => exact .ofCount rfl
  | ifGoto target => exact .ofCount rfl
  | function name locals => exact balanced_enter name locals
  | call name arguments => exact balanced_call _ _ _
  | «return» => exact .ofCount rfl

theorem balanced_listing (options : Options) (sites : List Site) :
    Balanced (listing options sites) :=
  listing_induction Balanced options sites (fun _ _ left right => left.append right) (.ofCount rfl)
    (fun _ _ => .ofCount rfl) (fun _ _ => balanced_bootstrap _) (fun _ _ _ => balanced_code _ _ _)
    balanced_sharedReturn

end Variables

/-- The symbol of the static variable that a command gets at, if it gets at one. -/
def Site.static? (site : Site) : Option String :=
  match site.command with
  | .push .static index | .pop .static index => some (site.scope.staticSymbol index)
  | _ => none

theorem Site.static?_eq_some {site : Site} {symbol : String} (gets : site.static? = some symbol) :
    ∃ index, symbol = site.scope.staticSymbol index := by
  unfold Site.static? at gets
  split at gets
  · cases gets
    exact ⟨_, rfl⟩
  · cases gets
    exact ⟨_, rfl⟩
  · cases gets

/-- The symbol of a static variable is used by nothing else, unless a function has its name. -/
theorem isVariable_static (options : Options) {sites : List Site} {site : Site}
    (member : site ∈ sites) {symbol : String} (gets : site.static? = some symbol)
    (plain : '$' ∉ site.scope.file.toList)
    (noFunction : ∀ other ∈ sites, ∀ locals, other.command ≠ .function symbol locals) :
    IsVariable (listing options sites) symbol := by
  have spelled := Site.static?_eq_some gets
  refine ⟨?used, ?notLabel, ?notPredefined⟩
  case used =>
    rcases List.getElem?_of_mem member with ⟨position, found⟩
    refine (Draft.prefix_site options found).subset (List.mem_append_right _ ?_)
    unfold Draft.codeOf
    unfold Site.static? at gets
    split at gets
    · rename_i command
      cases gets
      rw [command]
      exact List.mem_append_left _ List.mem_cons_self
    · rename_i command
      cases gets
      rw [command]
      exact List.mem_append_right _ List.mem_cons_self
    · cases gets
  case notLabel =>
    intro label
    rcases mayLabel_listing options sites symbol (Listing.mem_labels.mpr label) with
      dollar | ⟨other, inside, locals, begins⟩
    · rcases spelled with ⟨index, rfl⟩
      simp only [Scope.staticSymbol, String.toList_append, List.mem_append] at dollar
      rcases dollar with (inFile | inDot) | inIndex
      · exact plain inFile
      · exact absurd inDot (by decide)
      · exact absurd (isDigit_of_mem_toString inIndex) (by decide)
    · exact noFunction other inside locals begins
  case notPredefined =>
    intro address listed
    have dotless : ∀ entry ∈ SymbolTable.predefined, '.' ∉ entry.1.toList := by decide +kernel
    rcases spelled with ⟨index, rfl⟩
    exact dotless _ listed (by simp [Scope.staticSymbol])

end Vm
end HackToolchain
