import Mathlib.Data.List.Nodup
import HackToolchain.Proofs.Vm.Translation

namespace HackToolchain

/-!
# Labels of translated programs

The labels of a listing come from five families: the entries of functions, the labels of scopes, the
labels that calls return to, the pairs of labels of comparisons, and the label of the shared return.
The check of a program keeps only the first two apart.  That all labels are different rests on how
the translator spells its own: they begin with a dollar sign, which no name in a source does, and they
end in a number, or in a number and a word without one, behind the last period.  Numbers of one base
are handed out upwards, whatever file or function asks for them.

Besides its labels a listing has the symbols that it takes for places: it jumps to them, or keeps
their address for a later jump.  All of these are labels of the listing too, except for the names of
functions that are called, which another listing may define.

File names are given from outside and are assumed to be plain.  Nothing is assumed of the sources.
-/

namespace Hack

/-! ## References -/

/-- Whether an operand is among those of a computation. -/
def Computation.takes (computation : Computation) (operand : Operand) : Bool :=
  match computation with
  | .operand only | .unary _ only => only == operand
  | .binary left _ right => left == operand || right == operand

/-- Whether an instruction makes use of the address register itself, and not of the cell that it
points to: by jumping there or by computing with the address. -/
def Instruction.usesAddress : Instruction -> Bool
  | .compute _ computation jump => jump.isSome || computation.takes .a
  | _ => false

def Instruction.isSymbol : Instruction -> Bool
  | .symbol _ => true
  | _ => false

namespace Listing

/-- The symbols that a listing takes for places: the next instruction uses their address. -/
def references : Listing -> List String
  | [] => []
  | [_] => []
  | .symbol name :: next :: rest =>
    if next.usesAddress then name :: references (next :: rest) else references (next :: rest)
  | _ :: next :: rest => references (next :: rest)

/-- The listing does not end with a symbol, so what follows does not matter for its references. -/
def Settled (listing : Listing) : Prop := listing.getLast?.any Instruction.isSymbol = false

theorem references_append {first : Listing} (settled : first.Settled) (second : Listing) :
    references (first ++ second) = references first ++ references second := by
  induction first with
  | nil => rfl
  | cons entry rest inductionHypothesis =>
      cases rest with
      | nil =>
          cases entry with
          | symbol name => cases settled
          | _ =>
              cases second with
              | nil => rfl
              | cons next others => rfl
      | cons next rest =>
          have later := inductionHypothesis (by
            simpa only [Settled, List.getLast?_cons_cons] using settled)
          cases entry with
          | symbol name =>
              simp only [List.cons_append, references] at later ⊢
              rw [later]
              by_cases uses : next.usesAddress = true
              · rw [if_pos uses, if_pos uses, List.cons_append]
              · rw [if_neg uses, if_neg uses]
          | _ => exact later

theorem Settled.append {first second : Listing} (before : first.Settled)
    (behind : second.Settled) : Settled (first ++ second) := by
  unfold Settled at *
  rw [List.getLast?_append]
  cases known : second.getLast? with
  | some entry =>
      rw [known] at behind
      exact behind
  | none => exact before

/-- The listing takes these symbols for places, in this order, and is settled. -/
structure Refers (listing : Listing) (names : List String) : Prop where
  settled : listing.Settled
  same : listing.references = names

theorem Refers.append {first second : Listing} {names others : List String}
    (before : first.Refers names) (behind : second.Refers others) :
    Refers (first ++ second) (names ++ others) := by
  refine ⟨before.settled.append behind.settled, ?_⟩
  rw [references_append before.settled, before.same, behind.same]

/-- Two pieces one behind the other that take no symbol for a place. -/
theorem Refers.quiet {first second : Listing} (before : first.Refers [])
    (behind : second.Refers []) : Refers (first ++ second) [] :=
  before.append behind

theorem Refers.repeat {listing : Listing} (quiet : listing.Refers []) (count : Nat) :
    Refers (List.replicate count listing).flatten [] := by
  induction count with
  | zero => exact ⟨rfl, rfl⟩
  | succ count inductionHypothesis =>
      rw [List.replicate_succ, List.flatten_cons]
      exact quiet.quiet inductionHypothesis

end Listing
end Hack

namespace Vm

open Hack

section References

open Hack.Listing Code

theorem refers_pointFrom (symbol : String) (direction : Direction) (offset : UInt16) :
    Refers (pointFrom symbol direction offset) [] := by
  unfold pointFrom
  split
  · exact ⟨rfl, rfl⟩
  · split
    · have step : Refers [setBinary .a .a direction.operator .one] [] := ⟨rfl, rfl⟩
      have first : Refers ([.symbol symbol, setBinary .a .m direction.operator .one] : Listing)
          [] := ⟨rfl, rfl⟩
      have steps := step.repeat (offset.toNat - 1)
      rw [List.flatten_replicate_singleton] at steps
      exact first.quiet steps
    · cases direction with
      | up => exact ⟨rfl, rfl⟩
      | down => exact ⟨rfl, rfl⟩

theorem refers_push (cell : Cell) : Refers (Code.push cell) [] := by
  cases cell with
  | indirect base offset =>
      have fetched : Refers [set .d .m] [] := ⟨rfl, rfl⟩
      have pushed : Refers pushData [] := ⟨rfl, rfl⟩
      exact ((refers_pointFrom base .up offset).quiet fetched).quiet pushed
  | direct symbol => exact ⟨rfl, rfl⟩
  | literal value =>
      rw [Code.push]
      split
      · exact ⟨rfl, rfl⟩
      · split
        · exact ⟨rfl, rfl⟩
        · exact ⟨rfl, rfl⟩

theorem refers_pop (cell : Cell) : Refers (Code.pop cell) [] := by
  cases cell with
  | indirect base offset =>
      have pointed := refers_pointFrom base .up offset
      have popped : Refers popData [] := ⟨rfl, rfl⟩
      have stored : Refers [set .m .d] [] := ⟨rfl, rfl⟩
      have kept : Refers ([set .d .a] ++ store "R13" ++ popData ++
          [.symbol "R13", set .a .m, set .m .d]) [] := ⟨rfl, rfl⟩
      rw [Code.pop]
      split
      · exact (popped.quiet pointed).quiet stored
      · have whole := pointed.quiet kept
        simpa only [List.append_assoc] using whole
  | direct symbol => exact ⟨rfl, rfl⟩
  | literal value => exact ⟨rfl, rfl⟩

theorem refers_enter (name : String) (locals : UInt16) : Refers (Code.enter name locals) [] := by
  unfold Code.enter
  split
  · exact ⟨rfl, rfl⟩
  · have entry : Refers [.label name, set .d .zero] [] := ⟨rfl, rfl⟩
    have zero : Refers pushData [] := ⟨rfl, rfl⟩
    exact entry.quiet (zero.repeat locals.toNat)

/-- The symbols that the code of a command takes for places.  A call keeps the place to return to and
jumps to the function. -/
def Command.references (scope : Scope) (label : String) : Command -> List String
  | .arithmetic operation => if operation.labelName?.isSome then [label, label ++ ".end"] else []
  | .goto target | .ifGoto target => [scope.labelSymbol target]
  | .call name _ => [label, name]
  | .«return» => [returnSymbol]
  | _ => []

theorem refers_code (scope : Scope) (label : String) (command : Command) :
    Refers (command.code scope label) (command.references scope label) := by
  cases command with
  | arithmetic operation => cases operation <;> exact ⟨rfl, rfl⟩
  | push segment index => exact refers_push _
  | pop segment index => exact refers_pop _
  | label name => exact ⟨rfl, rfl⟩
  | goto target => exact ⟨rfl, rfl⟩
  | ifGoto target => exact ⟨rfl, rfl⟩
  | function name locals => exact refers_enter name locals
  | call name arguments => exact ⟨rfl, rfl⟩
  | «return» => exact ⟨rfl, rfl⟩

theorem refers_bootstrap (label : String) : Refers (bootstrap label) [label, entryPoint] :=
  ⟨rfl, rfl⟩

theorem refers_sharedReturn : Refers sharedReturn [] := ⟨rfl, by decide⟩

end References

/-! ## Labels of the translator's own -/

/-- The label of a base with a number, or the twin of that label. -/
def madeLabel (base : String) (number : Nat) (twin : Bool) : String :=
  base ++ "." ++ toString number ++ if twin then ".end" else ""

theorem append_number_inj {base base' : String} {number number' : Nat}
    (same : base ++ "." ++ toString number = base' ++ "." ++ toString number') :
    base = base' ∧ number = number' := by
  have noDigit : '.'.isDigit = false := by decide
  have lists := congrArg String.toList same
  simp only [String.toList_append, List.append_assoc] at lists
  obtain ⟨bases, digits⟩ := append_cons_inj (notMem_digits noDigit number)
    (notMem_digits noDigit number') lists
  exact ⟨String.toList_inj.mp bases, toString_inj digits⟩

theorem append_number_ne_twin (base base' : String) (number number' : Nat) :
    base ++ "." ++ toString number ≠ base' ++ "." ++ toString number' ++ ".end" := by
  intro same
  have noDigit : '.'.isDigit = false := by decide
  have noPeriod : '.' ∉ ['e', 'n', 'd'] := by decide
  have lists := congrArg String.toList same
  simp only [String.toList_append, List.append_assoc base.toList] at lists
  obtain ⟨-, digits⟩ := append_cons_inj (notMem_digits noDigit number) noPeriod lists
  have letter : 'e' ∈ (toString number).toList := by
    rw [digits]
    exact List.mem_cons_self
  exact absurd (isDigit_of_mem_toString letter) (by decide)

/-- What stands behind the last period of a label of the translator's own is the number of a label
that is no twin, and no number for a twin. -/
theorem madeLabel_inj {base base' : String} {number number' : Nat} {twin twin' : Bool}
    (same : madeLabel base number twin = madeLabel base' number' twin') :
    base = base' ∧ number = number' ∧ twin = twin' := by
  cases twin with
  | false =>
      cases twin' with
      | false =>
          simp only [madeLabel, Bool.false_eq_true, if_false, String.append_empty] at same
          obtain ⟨bases, numbers⟩ := append_number_inj same
          exact ⟨bases, numbers, rfl⟩
      | true =>
          simp only [madeLabel, Bool.false_eq_true, if_false, if_true, String.append_empty] at same
          exact absurd same (append_number_ne_twin _ _ _ _)
  | true =>
      cases twin' with
      | false =>
          simp only [madeLabel, Bool.false_eq_true, if_false, if_true, String.append_empty] at same
          exact absurd same.symm (append_number_ne_twin _ _ _ _)
      | true =>
          simp only [madeLabel, if_true, String.append_left_inj] at same
          obtain ⟨bases, numbers⟩ := append_number_inj same
          exact ⟨bases, numbers, rfl⟩

/-- The text begins with a dollar sign. -/
def IsReserved (name : String) : Prop := name.toList.head? = some '$'

/-- The label has been made of some base whose count is now beyond the label's number. -/
def Made (numbers : LabelNumbers) (name : String) : Prop :=
  ∃ base number twin, IsReserved base ∧ number < numbers.getD base 0 ∧
    name = madeLabel base number twin

theorem Made.isReserved {numbers : LabelNumbers} {name : String} (made : Made numbers name) :
    IsReserved name := by
  obtain ⟨base, number, twin, reserved, -, rfl⟩ := made
  unfold IsReserved at *
  simp only [madeLabel, String.toList_append, List.head?_append, reserved, Option.some_or]

theorem getD_next (numbers : LabelNumbers) (base other : String) :
    (numbers.next base).2.getD other 0 =
      if base = other then numbers.getD base 0 + 1 else numbers.getD other 0 := by
  simp only [LabelNumbers.next, Std.TreeMap.getD_insert, Std.LawfulEqCmp.compare_eq_iff_eq]

theorem next_eq_madeLabel (numbers : LabelNumbers) (base : String) :
    (numbers.next base).1 = madeLabel base (numbers.getD base 0) false := by
  simp only [LabelNumbers.next, madeLabel, Bool.false_eq_true, if_false, String.append_empty]

/-- Labels stay made. -/
theorem Made.next {numbers : LabelNumbers} {name : String} (made : Made numbers name)
    (base : String) : Made (numbers.next base).2 name := by
  obtain ⟨other, number, twin, reserved, below, rfl⟩ := made
  refine ⟨other, number, twin, reserved, ?_, rfl⟩
  rw [getD_next]
  by_cases same : base = other
  · rw [if_pos same, same]
    exact Nat.lt_succ_of_lt below
  · rw [if_neg same]
    exact below

/-- The next label of a base and its twin are made then, and have not been made before. -/
theorem made_next {numbers : LabelNumbers} {base : String} (reserved : IsReserved base)
    (twin : Bool) :
    Made (numbers.next base).2 (madeLabel base (numbers.getD base 0) twin) ∧
      ¬Made numbers (madeLabel base (numbers.getD base 0) twin) := by
  constructor
  · refine ⟨base, numbers.getD base 0, twin, reserved, ?_, rfl⟩
    rw [getD_next, if_pos rfl]
    exact Nat.lt_succ_self _
  · rintro ⟨other, number, twin', -, below, same⟩
    obtain ⟨rfl, rfl, -⟩ := madeLabel_inj same
    exact absurd below (Nat.lt_irrefl _)

/-- The label of the shared return has no period, so it is none of the translator's numbered
labels. -/
theorem not_made_returnSymbol (numbers : LabelNumbers) : ¬Made numbers Code.returnSymbol := by
  rintro ⟨base, number, twin, -, -, same⟩
  have period : '.' ∈ (madeLabel base number twin).toList := by simp [madeLabel]
  rw [← same] at period
  exact absurd period (by decide)

/-! ## All labels of a listing -/

/-- A command defines a symbol that the program's check knows, or gets one or two labels of its own,
or has no label at all. -/
theorem Site.labels_cases (site : Site) (label : String) :
    (∃ symbol, site.definition? = some symbol ∧ site.labelBase? = none ∧
      site.command.labels site.scope label = [symbol]) ∨
    (∃ base, site.definition? = none ∧ site.labelBase? = some base ∧ IsReserved base ∧
      (site.command.labels site.scope label = [label] ∨
        site.command.labels site.scope label = [label, label ++ ".end"])) ∨
    (site.definition? = none ∧ site.labelBase? = none ∧
      site.command.labels site.scope label = []) := by
  cases command : site.command with
  | arithmetic operation =>
      right
      cases named : operation.labelName? with
      | none =>
          right
          simp [definition?, labelBase?, command, Command.labels, named]
      | some name =>
          left
          refine ⟨comparisonBase name site.scope.context, ?_⟩
          simp [definition?, labelBase?, command, Command.labels, named, IsReserved,
            comparisonBase]
  | label name =>
      left
      refine ⟨site.scope.labelSymbol name, ?_⟩
      simp [definition?, labelBase?, command, Command.labels]
  | function name locals =>
      left
      refine ⟨name, ?_⟩
      simp [definition?, labelBase?, command, Command.labels]
  | call name arguments =>
      right
      left
      refine ⟨returnBase name, ?_⟩
      simp [definition?, labelBase?, command, Command.labels, IsReserved, returnBase]
  | _ =>
      right
      right
      simp [definition?, labelBase?, command, Command.labels]

namespace Draft

/-- The labels of the listing so far. -/
def labels (draft : Draft) : List String := Listing.labels draft.listing.toList

/-- The labels of a draft are all different, and each is defined by a site so far or has been made. -/
structure Apart (draft : Draft) (before : List Site) : Prop where
  distinct : draft.labels.Nodup
  known : ∀ name ∈ draft.labels,
    name ∈ Site.definitions before ∨ Made draft.numbers name

theorem labels_remark (options : Options) (text : String) :
    Listing.labels (remark options text) = [] := by
  unfold remark
  split
  · rfl
  · rfl

theorem labels_addSite (options : Options) (draft : Draft) (site : Site) :
    (draft.addSite options site).labels =
      draft.labels ++ site.command.labels site.scope (draft.ownLabel site) := by
  rw [labels, labels, toList_addSite, Listing.labels_append, Listing.labels_append, labels_remark,
    List.append_nil, codeOf, labels_code]

theorem numbers_note (options : Options) (text : String) (draft : Draft) :
    (draft.note options text).numbers = draft.numbers := by
  unfold note
  split
  · rfl
  · rfl

theorem numbers_addSite (options : Options) (draft : Draft) (site : Site) :
    (draft.addSite options site).numbers =
      match site.labelBase? with
      | some base => (draft.numbers.next base).2
      | none => draft.numbers := by
  unfold addSite
  cases base : site.labelBase? with
  | none => exact numbers_note options _ draft
  | some base => simp only [numbers_note, append]

/-- Labels stay apart when those added are all different and new to the draft. -/
theorem Apart.extend {draft next : Draft} {before after : List Site} {added : List String}
    (apart : draft.Apart before) (labels : next.labels = draft.labels ++ added)
    (distinct : added.Nodup) (fresh : ∀ name ∈ added, name ∉ draft.labels)
    (known : ∀ name ∈ added, name ∈ Site.definitions after ∨ Made next.numbers name)
    (sites : Site.definitions before ⊆ Site.definitions after)
    (numbers : ∀ name, Made draft.numbers name -> Made next.numbers name) :
    next.Apart after := by
  constructor
  · rw [labels]
    exact apart.distinct.append distinct fun name old new => fresh name new old
  · intro name member
    rw [labels] at member
    rcases List.mem_append.mp member with old | new
    · exact (apart.known name old).imp (fun defined => sites defined) (numbers name)
    · exact known name new

/-- The label of a base's next number is new, if no site has defined a reserved name. -/
theorem Apart.fresh {draft : Draft} {before : List Site} (apart : draft.Apart before)
    (plain : ∀ symbol ∈ Site.definitions before, ¬IsReserved symbol) {base : String}
    (reserved : IsReserved base) (twin : Bool) :
    madeLabel base (draft.numbers.getD base 0) twin ∉ draft.labels := by
  intro old
  rcases apart.known _ old with defined | made
  · exact plain _ defined (made_next reserved twin).1.isReserved
  · exact (made_next reserved twin).2 made

/-- The labels a site gets of its own carry the next number of their base. -/
theorem labels_of_labelBase {site : Site} {base : String} (draft : Draft)
    (hasBase : site.labelBase? = some base) :
    IsReserved base ∧ ∃ twins : List Bool, twins.Nodup ∧
      site.command.labels site.scope (draft.ownLabel site) =
        twins.map (madeLabel base (draft.numbers.getD base 0)) := by
  have own : draft.ownLabel site = madeLabel base (draft.numbers.getD base 0) false := by
    simp [ownLabel, hasBase, LabelNumbers.next, madeLabel]
  have twin : draft.ownLabel site ++ ".end" = madeLabel base (draft.numbers.getD base 0) true := by
    simp [own, madeLabel]
  rcases site.labels_cases (draft.ownLabel site) with
    ⟨_, -, noBase, -⟩ | ⟨other, -, hasOther, reserved, labels⟩ | ⟨-, noBase, -⟩
  · rw [noBase] at hasBase
    cases hasBase
  · obtain rfl : other = base := Option.some.inj (hasOther.symm.trans hasBase)
    refine ⟨reserved, ?_⟩
    rcases labels with single | pair
    · exact ⟨[false], by decide, by rw [single, own]; rfl⟩
    · exact ⟨[false, true], by decide, by rw [pair, twin, own]; rfl⟩
  · rw [noBase] at hasBase
    cases hasBase

/-- One site keeps labels apart, if it defines no symbol again and none that is reserved. -/
theorem Apart.addSite {options : Options} {draft : Draft} {before : List Site} {site : Site}
    (apart : draft.Apart before) (distinct : (Site.definitions (before ++ [site])).Nodup)
    (plain : ∀ symbol ∈ Site.definitions (before ++ [site]), ¬IsReserved symbol) :
    (draft.addSite options site).Apart (before ++ [site]) := by
  have added := draft.labels_addSite options site
  have numbers := draft.numbers_addSite options site
  rw [Site.definitions_append] at distinct plain
  have sites : Site.definitions before ⊆ Site.definitions (before ++ [site]) := by
    rw [Site.definitions_append]
    exact List.subset_append_left _ _
  cases hasBase : site.labelBase? with
  | some base =>
      obtain ⟨reserved, twins, twinsDistinct, labels⟩ := draft.labels_of_labelBase hasBase
      rw [hasBase] at numbers
      refine apart.extend (added.trans (by rw [labels])) ?_ ?_ ?_ sites ?_
      · exact twinsDistinct.map fun _ _ same => (madeLabel_inj same).2.2
      · intro name new
        obtain ⟨twin, -, rfl⟩ := List.mem_map.mp new
        exact apart.fresh (fun symbol defined => plain symbol (List.mem_append_left _ defined))
          reserved twin
      · intro name new
        obtain ⟨twin, -, rfl⟩ := List.mem_map.mp new
        rw [numbers]
        exact .inr (made_next reserved twin).1
      · intro name made
        rw [numbers]
        exact made.next base
  | none =>
      rw [hasBase] at numbers
      have kept (name : String) (made : Made draft.numbers name) :
          Made (draft.addSite options site).numbers name := by
        rw [numbers]
        exact made
      rcases site.labels_cases (draft.ownLabel site) with
        ⟨symbol, defines, -, labels⟩ | ⟨base, -, other, -⟩ | ⟨-, -, labels⟩
      · have single : Site.definitions [site] = [symbol] :=
          Site.definitions_cons_of_some [] defines
        rw [single] at distinct plain
        refine apart.extend (added.trans (by rw [labels])) (List.nodup_singleton symbol) ?_ ?_
          sites kept
        · intro name new old
          rw [List.mem_singleton.mp new] at old
          rcases apart.known symbol old with defined | made
          · exact List.disjoint_of_nodup_append distinct defined List.mem_cons_self
          · exact plain symbol (List.mem_append_right _ List.mem_cons_self) made.isReserved
        · intro name new
          rw [Site.definitions_append, single]
          exact .inl (List.mem_append_right _ new)
      · rw [hasBase] at other
        cases other
      · exact apart.extend (added.trans (by rw [labels])) List.nodup_nil
          (fun _ new => absurd new List.not_mem_nil) (fun _ new => absurd new List.not_mem_nil)
          sites kept

/-- So do all sites of a program. -/
theorem Apart.foldl {options : Options} {draft : Draft} {before : List Site} (rest : List Site)
    (apart : draft.Apart before) (distinct : (Site.definitions (before ++ rest)).Nodup)
    (plain : ∀ symbol ∈ Site.definitions (before ++ rest), ¬IsReserved symbol) :
    (rest.foldl (Draft.addSite options) draft).Apart (before ++ rest) := by
  induction rest generalizing draft before with
  | nil =>
      rw [List.append_nil]
      exact apart
  | cons site rest inductionHypothesis =>
      have regroup : before ++ site :: rest = (before ++ [site]) ++ rest := by simp
      rw [regroup] at distinct plain ⊢
      have front : (Site.definitions (before ++ [site])).Sublist
          (Site.definitions ((before ++ [site]) ++ rest)) := by
        rw [Site.definitions_append (before ++ [site])]
        exact List.sublist_append_left _ _
      apply inductionHypothesis _ distinct plain
      exact apart.addSite (distinct.sublist front) fun symbol member =>
        plain symbol (front.subset member)

theorem apart_start (options : Options) : (start options).Apart [] := by
  have reserved : IsReserved (returnBase Code.entryPoint) := rfl
  have bootstrap (label : String) : Listing.labels (Code.bootstrap label) = [label] := rfl
  by_cases wanted : options.bootstrap = true
  · have labels : (start options).labels =
        [((∅ : LabelNumbers).next (returnBase Code.entryPoint)).1] := by
      simp only [Draft.labels, start, if_pos wanted, toList_append, toList_note,
        Listing.labels_append, labels_remark, bootstrap]
      rfl
    have numbers : (start options).numbers =
        ((∅ : LabelNumbers).next (returnBase Code.entryPoint)).2 := by
      simp only [start, if_pos wanted, append]
    constructor
    · rw [labels]
      exact List.nodup_singleton _
    · intro name member
      rw [labels, List.mem_singleton] at member
      rw [numbers, member, next_eq_madeLabel]
      exact .inr (made_next reserved false).1
  · have labels : (start options).labels = [] := by
      simp only [Draft.labels, start, if_neg wanted]
      rfl
    constructor
    · rw [labels]
      exact List.nodup_nil
    · rw [labels]
      exact nofun

end Draft

/-- The labels of a listing are all different if the symbols that its sites define are, and none of
these is reserved. -/
theorem nodup_labels (options : Options) {sites : List Site}
    (distinct : (Site.definitions sites).Nodup)
    (plain : ∀ symbol ∈ Site.definitions sites, ¬IsReserved symbol) :
    (Listing.labels (listing options sites)).Nodup := by
  have apart : (sites.foldl (Draft.addSite options) (Draft.start options)).Apart ([] ++ sites) :=
    (Draft.apart_start options).foldl sites distinct plain
  unfold listing Draft.finish
  split
  · have routine : Listing.labels Code.sharedReturn = [Code.returnSymbol] := rfl
    rw [Draft.toList_append, Draft.toList_note, Listing.labels_append, Listing.labels_append,
      Draft.labels_remark, List.append_nil, routine]
    apply apart.distinct.append (List.nodup_singleton _)
    intro name old new
    rw [List.mem_singleton.mp new] at old
    rcases apart.known _ old with defined | made
    · exact plain _ defined rfl
    · exact not_made_returnSymbol _ made
  · exact apart.distinct

/-! ## All references of a listing -/

/-- A function that a program calls, be it only to start. -/
def IsCalled (options : Options) (sites : List Site) (name : String) : Prop :=
  (options.bootstrap = true ∧ name = Code.entryPoint) ∨
    ∃ site ∈ sites, ∃ arguments, site.command = .call name arguments

theorem mem_labels_of_definition (options : Options) {sites : List Site} {symbol : String}
    (defined : symbol ∈ Site.definitions sites) :
    symbol ∈ Listing.labels (listing options sites) := by
  obtain ⟨site, member, defines⟩ := List.mem_filterMap.mp defined
  obtain ⟨position, found⟩ := List.getElem?_of_mem member
  rw [Listing.mem_labels]
  apply (Draft.prefix_site options found).subset
  apply List.mem_append_right
  rw [← Listing.mem_labels, Draft.codeOf, labels_code]
  rcases site.labels_cases ((Draft.upTo options sites position).ownLabel site) with
    ⟨other, same, -, labels⟩ | ⟨_, none, -⟩ | ⟨none, -⟩
  · rw [defines] at same
    cases same
    rw [labels]
    exact List.mem_cons_self
  · rw [defines] at none
    cases none
  · rw [defines] at none
    cases none

theorem returnSymbol_mem_labels (options : Options) {sites : List Site} {site : Site}
    (member : site ∈ sites) (returns : site.command = .«return») :
    Code.returnSymbol ∈ Listing.labels (listing options sites) := by
  have anywhere : (sites.any fun site => site.command == .«return») = true := by
    rw [List.any_eq_true]
    exact ⟨site, member, by rw [returns]; rfl⟩
  have routine : Code.returnSymbol ∈ Listing.labels Code.sharedReturn := List.mem_cons_self
  unfold listing Draft.finish
  rw [if_pos anywhere, Draft.toList_append, Listing.labels_append]
  exact List.mem_append_right _ routine

/-- The code of a site takes for a place only its own labels, the label that its command jumps to,
the shared return and a function that is called. -/
theorem references_codeOf (options : Options) (draft : Draft) {sites : List Site} {site : Site}
    (member : site ∈ sites) {name : String}
    (refers : name ∈ Listing.references (draft.codeOf site)) :
    name ∈ Listing.labels (draft.codeOf site) ∨
      (∃ label, site.target? = some label ∧ name = site.scope.labelSymbol label) ∨
      (site.command = .«return» ∧ name = Code.returnSymbol) ∨ IsCalled options sites name := by
  rw [Draft.codeOf, (refers_code _ _ _).same] at refers
  rw [Draft.codeOf, labels_code]
  cases command : site.command with
  | arithmetic operation =>
      rw [command] at refers
      exact .inl refers
  | goto label =>
      rw [command] at refers
      right
      left
      exact ⟨label, by rw [Site.target?, command], List.mem_singleton.mp refers⟩
  | ifGoto label =>
      rw [command] at refers
      right
      left
      exact ⟨label, by rw [Site.target?, command], List.mem_singleton.mp refers⟩
  | call function arguments =>
      rw [command] at refers
      rcases List.mem_cons.mp refers with rfl | called
      · exact .inl List.mem_cons_self
      · rw [List.mem_singleton.mp called]
        right
        right
        right
        exact .inr ⟨site, member, arguments, command⟩
  | «return» =>
      rw [command] at refers
      right
      right
      left
      exact ⟨rfl, List.mem_singleton.mp refers⟩
  | _ =>
      rw [command] at refers
      cases refers

/-- What a listing takes for a place is one of its labels or a function that is called, if the jumps
of its sites have somewhere to go. -/
theorem references_listing (options : Options) {sites : List Site}
    (reaches : ∀ site ∈ sites, ∀ label, site.target? = some label ->
      site.scope.labelSymbol label ∈ Site.definitions sites) :
    ∀ name ∈ Listing.references (listing options sites),
      name ∈ Listing.labels (listing options sites) ∨ IsCalled options sites name := by
  let whole := Listing.labels (listing options sites)
  have pieces : Listing.Settled (listing options sites) ∧
      ∀ name ∈ Listing.references (listing options sites),
        name ∈ Listing.labels (listing options sites) ∨ name ∈ whole ∨
          IsCalled options sites name := by
    refine listing_induction (fun code => Listing.Settled code ∧
      ∀ name ∈ Listing.references code, name ∈ Listing.labels code ∨ name ∈ whole ∨
        IsCalled options sites name) options sites ?append ?nil ?comment ?bootstrap ?code
      ?sharedReturn
    case append =>
      intro first second before behind
      refine ⟨before.1.append behind.1, ?_⟩
      intro name refers
      rw [Listing.references_append before.1] at refers
      rw [Listing.labels_append]
      rcases List.mem_append.mp refers with inFirst | inSecond
      · exact (before.2 name inFirst).imp_left (List.mem_append_left _)
      · exact (behind.2 name inSecond).imp_left (List.mem_append_right _)
    case nil => exact ⟨rfl, nofun⟩
    case comment => exact fun _ _ => ⟨rfl, nofun⟩
    case bootstrap =>
      intro wanted numbers
      have refers := refers_bootstrap (numbers.next (returnBase Code.entryPoint)).1
      refine ⟨refers.settled, ?_⟩
      intro name member
      rw [refers.same] at member
      rcases List.mem_cons.mp member with rfl | entry
      · exact .inl List.mem_cons_self
      · exact .inr (.inr (.inl ⟨wanted, List.mem_singleton.mp entry⟩))
    case code =>
      intro draft site member
      refine ⟨(refers_code _ _ _).settled, ?_⟩
      intro name refers
      rcases references_codeOf options draft member refers with
        own | ⟨label, jumps, rfl⟩ | ⟨returns, rfl⟩ | called
      · exact .inl own
      · exact .inr (.inl (mem_labels_of_definition options (reaches site member label jumps)))
      · exact .inr (.inl (returnSymbol_mem_labels options member returns))
      · exact .inr (.inr called)
    case sharedReturn =>
      refine ⟨refers_sharedReturn.settled, ?_⟩
      rw [refers_sharedReturn.same]
      exact nofun
  intro name refers
  rcases pieces.2 name refers with label | label | called
  · exact .inl label
  · exact .inl label
  · exact .inr called

/-! ## Programs with plain names -/

/-- A name that is not empty and holds no dollar sign. -/
structure IsPlain (name : String) : Prop where
  nonempty : name ≠ ""
  noDollar : '$' ∉ name.toList

theorem IsPlain.not_isReserved {name : String} (plain : IsPlain name) (behind : String) :
    ¬IsReserved (name ++ behind) := by
  unfold IsReserved
  rw [String.toList_append]
  cases characters : name.toList with
  | nil => exact absurd (String.toList_eq_nil_iff.mp characters) plain.nonempty
  | cons first rest =>
      have noDollar := plain.noDollar
      rw [characters] at noDollar
      intro reserved
      cases reserved
      exact noDollar List.mem_cons_self

theorem isPlain_of_isName {name : String} (isName : Dialect.vm.IsName name) : IsPlain name :=
  ⟨isName.nonempty, isName.notMem (by decide) (by decide)⟩

/-- The names of the scopes in a stretch of commands are that of the first scope and those of the
functions that begin there. -/
theorem context_ofCommands {holds : String -> Prop} {scope : Scope}
    {commands : List (Located Command)} (first : holds scope.context)
    (begun : ∀ entry ∈ commands, ∀ name locals, entry.item = .function name locals -> holds name) :
    ∀ site ∈ Site.ofCommands scope commands, holds site.scope.context := by
  induction commands generalizing scope with
  | nil => exact nofun
  | cons entry rest inductionHypothesis =>
      have next : holds (scope.enter entry.item).context := by
        cases command : entry.item with
        | function name locals => exact begun entry List.mem_cons_self name locals command
        | _ => exact first
      intro site member
      rcases List.mem_cons.mp member with rfl | later
      · exact next
      · exact inductionHypothesis next (fun other inside => begun other
          (List.mem_cons_of_mem _ inside)) site later

/-- In files with plain names that were read from sources no definition is reserved. -/
theorem not_isReserved_definitions {files : List File}
    (named : ∀ file ∈ files, IsPlain file.name)
    (readable : ∀ file ∈ files, ∀ entry ∈ file.commands, entry.item.IsReadable) :
    ∀ symbol ∈ Site.definitions (Site.ofFiles files), ¬IsReserved symbol := by
  intro symbol defined
  obtain ⟨site, member, defines⟩ := List.mem_filterMap.mp defined
  obtain ⟨file, inside, member⟩ := List.mem_flatMap.mp member
  have plain {name : String} {entry : Located Command} (known : entry ∈ file.commands)
      (names : entry.item.name? = some name) : IsPlain name :=
    isPlain_of_isName ((readable file inside entry known).named name names)
  have context : IsPlain site.scope.context := by
    apply context_ofCommands (named file inside) _ site member
    intro entry known name locals command
    exact plain known (by rw [command, Command.name?])
  obtain ⟨-, entry, known, same⟩ := mem_ofCommands member
  unfold Site.definition? at defines
  cases command : site.command with
  | function name locals =>
      rw [command] at defines
      cases defines
      have reserved := (plain known (by rw [same, command, Command.name?])).not_isReserved ""
      rwa [String.append_empty] at reserved
  | label name =>
      rw [command] at defines
      cases defines
      rw [Scope.labelSymbol, String.append_assoc]
      exact context.not_isReserved _
  | _ =>
      rw [command] at defines
      cases defines

/-- Take sources that are translated and whose file names are plain.  All labels of the listing are
different.  Whatever the listing takes for a place, be it for a jump or to return there later, is one
of its labels, unless it is a function that is called; the name of a function holds no dollar
sign. -/
theorem translated_labels {options : Options} {sources : List (String × String)} {code : Listing}
    (named : ∀ source ∈ sources, source.1 ≠ "" ∧ '$' ∉ source.1.toList)
    (translated : translateSources options sources = .ok code) :
    (Listing.labels code).Nodup ∧
      ∃ files, readFiles sources = .ok files ∧
        ∀ name ∈ Listing.references code, name ∈ Listing.labels code ∨
          ('$' ∉ name.toList ∧ IsCalled options (Site.ofFiles files) name) := by
  cases read : readFiles sources with
  | error errors =>
      rw [translateSources, read] at translated
      cases translated
  | ok files =>
      obtain ⟨faultless, rfl⟩ := translate_eq_ok.mp (translateSources_ok read translated)
      have readable := isReadable_of_readFiles read
      have plainFiles : ∀ file ∈ files, IsPlain file.name := by
        intro file inside
        obtain ⟨source, given, same⟩ := List.mem_map.mp (readable file inside).1
        rw [← same]
        exact ⟨(named source given).1, (named source given).2⟩
      have plain := not_isReserved_definitions plainFiles fun file inside =>
        (readable file inside).2
      refine ⟨nodup_labels options faultless.distinct plain, files, rfl, ?_⟩
      intro name refers
      apply (references_listing options faultless.reaches name refers).imp_right
      intro called
      refine ⟨?_, called⟩
      rcases called with ⟨-, rfl⟩ | ⟨site, member, arguments, command⟩
      · decide
      · obtain ⟨file, inside, -, entry, known, same⟩ := mem_ofFiles member
        have isName := ((readable file inside).2 entry known).named name
          (by rw [same, command, Command.name?])
        exact (isPlain_of_isName isName).noDollar

/-- A function that loops has labels of all five families, and every jump but the calls goes to one of
them. -/
theorem loop_labels_apart :
    let source := "function A.f 0\nlabel L\ncall A.f 0\npush constant 2\neq\nif-goto L\nreturn\n"
    ∃ code, translateSources { bootstrap := true } [("A", source)] = .ok code ∧
      Listing.labels code = ["$RET.Sys.init.0", "A.f", "A.f$L", "$RET.A.f.0", "$EQ.A.f.0",
        "$EQ.A.f.0.end", "$RETURN"] ∧
      (Listing.labels code).Nodup ∧
      Listing.references code = ["$RET.Sys.init.0", "Sys.init", "$RET.A.f.0", "A.f", "$EQ.A.f.0",
        "$EQ.A.f.0.end", "A.f$L", "$RETURN"] ∧
      ∀ name ∈ Listing.references code, '$' ∈ name.toList -> name ∈ Listing.labels code := by
  intro source
  have computed : (translateSources { bootstrap := true } [("A", source)]).map
      (fun code => (Listing.labels code, Listing.references code)) =
        .ok (["$RET.Sys.init.0", "A.f", "A.f$L", "$RET.A.f.0", "$EQ.A.f.0", "$EQ.A.f.0.end",
          "$RETURN"], ["$RET.Sys.init.0", "Sys.init", "$RET.A.f.0", "A.f", "$EQ.A.f.0",
          "$EQ.A.f.0.end", "A.f$L", "$RETURN"]) := by
    decide +kernel
  cases translated : translateSources { bootstrap := true } [("A", source)] with
  | error errors =>
      rw [translated] at computed
      cases computed
  | ok code =>
      rw [translated] at computed
      obtain ⟨labels, references⟩ := Prod.mk.inj (Except.ok.inj computed)
      obtain ⟨distinct, files, -, refers⟩ := translated_labels (by decide) translated
      refine ⟨code, rfl, labels, distinct, references, ?_⟩
      intro name member dollar
      exact (refers name member).resolve_right fun called => called.1 dollar

end Vm
end HackToolchain
