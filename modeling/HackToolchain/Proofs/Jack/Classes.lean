import Mathlib.Data.List.Forall2
import HackToolchain.Proofs.Jack.Generation
import HackToolchain.Proofs.Jack.Parts

namespace HackToolchain
namespace Jack

/-!
# The code of a class keeps the meaning of its tree

The code of a class is the code of its subroutines one behind the other.  Each of them sets up the
subroutine's variables and current object and goes on to the code of its statements.

What a subroutine means is told by the tree of its class.  The scopes that its code was written in have
taken the declarations of the tree, so names stand for the same in both.
-/

open Vm

/-! ## Entering a subroutine -/

/-- A constructor allocates a word for every field that its class declares. -/
theorem number_fields (tree : Class) :
    Declaration.number tree.declared .field = Meaning.fieldCount tree.declarations := by
  unfold Declaration.number Class.declared Meaning.fieldCount
  rw [List.countP_flatMap]
  refine congrArg List.sum (List.map_congr_left fun declared _ => ?_)
  cases kind : declared.kind <;> simp [kind, ClassVariableKind.kind]

/-- A subroutine announces as many local variables as it declares. -/
theorem number_locals (className : String) (routine : Subroutine) :
    Declaration.number (routine.declared className) .«local» = Meaning.localCount routine := by
  unfold Declaration.number Subroutine.declared Meaning.localCount
  rw [List.countP_append, List.countP_append, List.countP_map, List.countP_map, List.countP_flatMap]
  simp [Function.comp_def]

section Names

variable {tree : Class} {routine : Subroutine} {scopes : Scopes}

/-- Different names of a subroutine mean different cells. -/
theorem cell_inj (hold : scopes.Hold (routine.surroundings tree)) {name other : String}
    {first second : Variable} (found : (routine.setting tree).lookup? name = some first)
    (foundToo : (routine.setting tree).lookup? other = some second)
    (kinds : first.kind = second.kind) (indices : first.index = second.index) : name = other := by
  obtain ⟨⟨declaration, place⟩, means, rfl⟩ := Option.map_eq_some_iff.mp found
  obtain ⟨⟨declaration', place'⟩, meansToo, rfl⟩ := Option.map_eq_some_iff.mp foundToo
  have places := congrArg UInt16.toNat indices
  change (UInt16.ofNat place).toNat = (UInt16.ofNat place').toNat at places
  rw [UInt16.toNat_ofNat_of_lt' (hold.place_lt means),
    UInt16.toNat_ofNat_of_lt' (hold.place_lt meansToo)] at places
  subst places
  exact Subroutine.latest?_inj means meansToo kinds

/-- The local variables that a subroutine declares are zero when its statements begin. -/
theorem local_entry (hold : scopes.Hold (routine.surroundings tree)) (calls : Interpretation)
    (store : Store) {name : String} {declared : Variable}
    (found : (routine.setting tree).lookup? name = some declared)
    (kind : declared.kind = .«local») :
    declared.read tree.name (Meaning.entry calls tree.declarations routine store) = 0 := by
  obtain ⟨⟨declaration, place⟩, means, rfl⟩ := Option.map_eq_some_iff.mp found
  change declaration.kind = .«local» at kind
  have below : UInt16.ofNat place < UInt16.ofNat (Meaning.localCount routine) := by
    rw [← number_locals tree.name, ← hold.ofSubroutine.count_eq_ofNat, UInt16.lt_iff_toNat_lt,
      UInt16.toNat_ofNat_of_lt' (hold.place_lt means), hold.ofSubroutine.count, ← kind]
    rcases Surroundings.latest?_cases means with here | here
    · exact Declaration.latest?_lt here
    · have ofClass := tree.kind_of_mem_declared
        (List.mem_reverse.mp (Declaration.mem_of_latest? here))
      simp [kind] at ofClass
  have zero : (Meaning.entry calls tree.declarations routine store).locals (UInt16.ofNat place) = 0 := by
    unfold Meaning.entry
    cases routine.kind with
    | _ => exact if_pos below
  rw [Variable.read, Declaration.variable, kind]
  exact zero

end Names

/-- The code in front of a subroutine's statements sets up what they begin with. -/
theorem reaches_entry {routine : Routine} {declarations : List ClassVariables}
    {subroutine : Subroutine} {name : String} {last : Nat} (stack : List UInt16) (store : Store)
    (stretch : routine.Stretch 0 (.function name (UInt16.ofNat (Meaning.localCount subroutine)) ::
      Code.prologue (UInt16.ofNat (Meaning.fieldCount declarations)) subroutine.kind) last) :
    routine.Reaches 0 last ⟨0, stack, store⟩
      ⟨last, stack, Meaning.entry routine.calls declarations subroutine store⟩ := by
  let begun : Store := { store with
    locals := zeroed (UInt16.ofNat (Meaning.localCount subroutine)) store.locals }
  have begins : routine.Reaches 0 1 ⟨0, stack, store⟩ ⟨1, stack, begun⟩ :=
    .command stretch fun that temp => ⟨that, temp, rfl⟩
  refine .cons stretch begins ?_
  have behind := stretch.tail
  unfold Meaning.entry
  cases kind : subroutine.kind with
  | function =>
      rw [kind] at behind
      cases behind.nil
      exact .refl _
  | method =>
      rw [kind] at behind
      obtain rfl : last = 3 := behind.ends
      have push : routine.Reaches 1 2 ⟨1, stack, begun⟩ ⟨2, begun.arguments 0 :: stack, begun⟩ :=
        .command behind fun that temp => ⟨that, temp, rfl⟩
      refine .cons behind push (.command behind.tail fun that temp => ⟨that, temp, rfl⟩)
  | constructor =>
      rw [kind] at behind
      obtain rfl : last = 4 := behind.ends
      let fields := UInt16.ofNat (Meaning.fieldCount declarations)
      have push : routine.Reaches 1 2 ⟨1, stack, begun⟩ ⟨2, fields :: stack, begun⟩ :=
        .command behind fun that temp => ⟨that, temp, rfl⟩
      have call := reaches_call stack begun [fields] behind.tail rfl
      exact .cons behind push (.cons behind.tail call
        (.command behind.tail.tail fun that temp => ⟨that, temp, rfl⟩))

/-! ## Subroutines -/

/-- A routine does what a subroutine means by the tree of its class, and so does its code at every part
of the subroutine. -/
structure KeepsMeaning (tree : Class) (subroutine : Subroutine) (routine : Routine) : Prop where
  /-- The code begins with the subroutine's name and the number of its local variables. -/
  declares : routine.code.head? = some (.function (routineName tree.name subroutine.name)
    (UInt16.ofNat (Meaning.localCount subroutine)))
  /-- Different names have different cells. -/
  distinct : ∀ name other first second, (subroutine.setting tree).lookup? name = some first ->
    (subroutine.setting tree).lookup? other = some second -> first.kind = second.kind ->
    first.index = second.index -> name = other
  /-- The local variables are zero when the statements begin. -/
  cleared : ∀ store name declared, (subroutine.setting tree).lookup? name = some declared ->
    declared.kind = .«local» -> declared.read tree.name
      (Meaning.entry routine.calls tree.declarations subroutine store) = 0
  /-- From the call on, the routine returns or runs on just as the subroutine does. -/
  whole : ∀ stack store, Realizes routine 0 routine.code.length ⟨0, stack, store⟩ stack
    fun rounds => Meaning.statements (subroutine.setting tree) routine.calls rounds
      subroutine.statements (Meaning.entry routine.calls tree.declarations subroutine store)
  /-- Every expression and statement of the subroutine has its code in the routine. -/
  parts : ∃ scopes : Scopes, scopes.className = tree.name ∧
    scopes.Hold (subroutine.surroundings tree) ∧
    ∀ part : Part, part.Inside (.statements subroutine.statements) ->
      ∃ first last, part.Placed scopes routine first last ∧
        part.Kept (subroutine.setting tree) routine first last

theorem writes_subroutine {className : String} {ofClass : Scope} {subroutine : Subroutine}
    {labels after : LabelCounts} {commands : List Command}
    (writes : Writes (Code.subroutine className ofClass subroutine) labels commands () after) :
    ∃ scope body, Code.subroutineScope className subroutine = .ok scope ∧
      Writes (Code.statements ⟨className, ofClass, scope⟩ subroutine.statements) labels body ()
        after ∧
      commands = .function (Code.qualified className subroutine.name) (scope.count .«local») ::
        Code.prologue (ofClass.count .field) subroutine.kind ++ body := by
  unfold Code.subroutine at writes
  cases made : Code.subroutineScope className subroutine with
  | error kind =>
      rw [made] at writes
      cases writes
  | ok scope =>
      rw [made] at writes
      rcases writes_bind.mp writes with ⟨⟨⟩, _, _, body, begins, bodies, rfl⟩
      rcases writes_emit.mp begins with ⟨rfl, rfl⟩
      exact ⟨scope, body, rfl, bodies, rfl⟩

/-- The statements of a subroutine define no label twice, and what stands in front of them none. -/
theorem nodup_definedLabels {scopes : Scopes} {trees : List Statement} {labels after : LabelCounts}
    {body : List Command} (bodies : Writes (Code.statements scopes trees) labels body () after)
    (fields : UInt16) (kind : SubroutineKind) :
    (definedLabels (Code.prologue fields kind ++ body)).Nodup := by
  have none : definedLabels (Code.prologue fields kind) = [] := by
    cases kind with
    | _ => rfl
  rw [definedLabels_append, none]
  exact (fresh_statements trees bodies).nodup

theorem subroutine_keepsMeaning {tree : Class} {ofClass : Scope} {subroutine : Subroutine}
    {labels after : LabelCounts} {code : List Command}
    (entered : Code.classScope tree.declarations = .ok ofClass)
    (writes : Writes (Code.subroutine tree.name ofClass subroutine) labels code () after)
    (fits : statementsFit subroutine.statements) (calls : Interpretation) :
    KeepsMeaning tree subroutine ⟨tree.name, code, calls⟩ := by
  rcases writes_subroutine writes with ⟨scope, body, made, bodies, rfl⟩
  let scopes : Scopes := ⟨tree.name, ofClass, scope⟩
  have hold : scopes.Hold (subroutine.surroundings tree) := subroutine_hold entered made
  let header : List Command := .function (Code.qualified tree.name subroutine.name)
    (scope.count .«local») :: Code.prologue (ofClass.count .field) subroutine.kind
  let routine : Routine := ⟨tree.name, header ++ body, calls⟩
  change KeepsMeaning _ _ routine
  have settled : InSetting (subroutine.setting tree) scopes routine := .of_hold rfl rfl hold
  rcases (Routine.Stretch.whole routine).append with ⟨first, head, stretch⟩
  have unique : (definedLabels routine.code).Nodup := nodup_definedLabels bodies _ _
  have locals : scope.count .«local» = UInt16.ofNat (Meaning.localCount subroutine) := by
    rw [← number_locals tree.name]
    exact hold.ofSubroutine.count_eq_ofNat .«local»
  have fields : ofClass.count .field = UInt16.ofNat (Meaning.fieldCount tree.declarations) := by
    rw [← number_fields]
    exact hold.ofClass.count_eq_ofNat .field
  simp only [header, locals, fields] at head
  refine ⟨?declares, ?distinct, ?cleared, ?whole, scopes, rfl, hold, ?parts⟩
  case declares =>
    rw [← locals]
    rfl
  case distinct =>
    intro name other first second found foundToo kinds indices
    exact cell_inj hold found foundToo kinds indices
  case cleared =>
    intro store name declared found kind
    exact local_entry hold calls store found kind
  case whole =>
    intro stack store
    refine .of_comesTo fun rounds => ?_
    rcases statements_come settled unique rounds subroutine.statements fits bodies stretch stack
      (Meaning.entry calls tree.declarations subroutine store) with ⟨outcome, known, comes⟩
    have enters := reaches_entry stack store head
    exact ⟨outcome, known, .after (enters.widen (Nat.le_refl 0) stretch.le)
      (comes.widen head.le (Nat.le_refl _))⟩
  case parts =>
    intro part inside
    rcases inside.placed ⟨labels, body, after, bodies, stretch⟩ with
      ⟨first', last', -, -, placed⟩
    exact ⟨first', last', placed, placed.kept settled unique (inside.fits fits)⟩

/-! ## Classes -/

/-- No call in a class has too many arguments. -/
def Class.Fits (tree : Class) : Prop :=
  ∀ subroutine ∈ tree.subroutines, statementsFit subroutine.statements

theorem writes_subroutines {className : String} {ofClass : Scope} {subroutines : List Subroutine}
    {labels after : LabelCounts} {commands : List Command}
    (writes : Writes (Code.subroutines className ofClass subroutines) labels commands () after) :
    ∃ codes, commands = codes.flatten ∧ List.Forall₂ (fun subroutine code =>
      subroutine ∈ subroutines ∧ ∃ labels after,
        Writes (Code.subroutine className ofClass subroutine) labels code () after)
      subroutines codes := by
  induction subroutines generalizing labels commands with
  | nil =>
      rcases writes_pure.mp writes with ⟨rfl, -, rfl⟩
      exact ⟨[], rfl, .nil⟩
  | cons subroutine rest inductionHypothesis =>
      rcases writes_bind.mp writes with ⟨⟨⟩, between, code, _, firsts, rests, rfl⟩
      rcases inductionHypothesis rests with ⟨codes, rfl, others⟩
      refine ⟨code :: codes, rfl, .cons ⟨List.mem_cons_self, labels, between, firsts⟩ ?_⟩
      exact others.imp fun _ _ known => ⟨List.mem_cons_of_mem subroutine known.1, known.2⟩

theorem compileClass_eq_ok {tree : Class} {commands : List Command}
    (compiled : compileClass tree = .ok commands) :
    ∃ ofClass after, Code.classScope tree.declarations = .ok ofClass ∧
      Writes (Code.subroutines tree.name ofClass tree.subroutines) {} commands () after := by
  rw [compileClass_eq] at compiled
  cases made : Code.classScope tree.declarations with
  | error kind =>
      rw [made] at compiled
      cases compiled
  | ok ofClass =>
      rw [made] at compiled
      rcases written : Code.subroutines tree.name ofClass tree.subroutines {} with
        ⟨emitted, after, result⟩
      dsimp only at compiled
      rw [written] at compiled
      cases result with
      | error error => cases compiled
      | ok =>
          cases compiled
          exact ⟨ofClass, after, rfl, written⟩

/-- Generated code preserves meaning.  The code of a class is the code of its subroutines in order,
and each of these does what its subroutine means by the tree of the class, whatever calls do. -/
theorem compileClass_keepsMeaning {tree : Class} {commands : List Command}
    (compiled : compileClass tree = .ok commands) (fits : tree.Fits) (calls : Interpretation) :
    ∃ codes, commands = codes.flatten ∧
      List.Forall₂ (fun subroutine code => KeepsMeaning tree subroutine ⟨tree.name, code, calls⟩)
        tree.subroutines codes := by
  rcases compileClass_eq_ok compiled with ⟨ofClass, after, entered, writes⟩
  rcases writes_subroutines writes with ⟨codes, rfl, each⟩
  refine ⟨codes, rfl, each.imp ?_⟩
  rintro subroutine code ⟨member, labels, between, writes⟩
  exact subroutine_keepsMeaning entered writes (fits subroutine member) calls

section Example

/-- A token of a tree that was not read from a source. -/
def unplaced (literal : String) : Token := ⟨.start, .identifier, literal⟩

/-- The value of a variable. -/
def valueOf (name : String) : Term := .variable (unplaced name)

/-- A subroutine of the class of rows. -/
def rowRoutine (kind : SubroutineKind) (name : String) (parameters : List Parameter)
    (locals : List LocalVariables) (statements : List Statement) : Subroutine where
  token := unplaced "subroutine"
  kind := kind
  returns := some .int
  name := name
  parameters := parameters
  opening := unplaced "\x7b"
  locals := locals
  statements := statements

/-- A class of rows of cells.  A row is scaled cell by cell, from cells that stand further on. -/
def rows : Class where
  token := unplaced "class"
  name := "Row"
  declarations := [
    ⟨unplaced "static", .static, .int, ["made"]⟩,
    ⟨unplaced "field", .field, .int, ["size"]⟩,
    ⟨unplaced "field", .field, .«class» "Array", ["cells"]⟩]
  subroutines := [
    rowRoutine .constructor "new"
      [⟨unplaced "int", .int, "wide"⟩, ⟨unplaced "Array", .«class» "Array", "source"⟩] [] [
        .assign (unplaced "let") "size" none (.term (valueOf "wide")),
        .assign (unplaced "let") "cells" none (.term (valueOf "source")),
        .assign (unplaced "let") "made" none
          (.binary (.term (valueOf "made")) .add (.integer (unplaced "1") 1)),
        .«return» (unplaced "return") (some (.term (.constant (unplaced "this") .this)))],
    rowRoutine .method "scale" [⟨unplaced "int", .int, "from"⟩, ⟨unplaced "int", .int, "by"⟩]
      [⟨unplaced "var", .int, ["count"]⟩] [
        .loop (unplaced "while") (.binary (.term (valueOf "count")) .lt (valueOf "size")) [
          .assign (unplaced "let") "cells" (some (.term (valueOf "count")))
            (.binary (.term (.element (unplaced "cells")
              (.binary (.term (valueOf "count")) .add (valueOf "from")))) .mul (valueOf "by")),
          .assign (unplaced "let") "count" none
            (.binary (.term (valueOf "count")) .add (.integer (unplaced "1") 1))],
        .«return» (unplaced "return") (some (.term (.call (.mk (unplaced "last") none "last"
          [.term (valueOf "by"), .term (.constant (unplaced "this") .this)]))))],
    rowRoutine .method "last"
      [⟨unplaced "int", .int, "times"⟩, ⟨unplaced "Row", .«class» "Row", "other"⟩] [] [
        .perform (unplaced "do") (.mk (unplaced "other") (some "other") "scale"
          [.term (valueOf "made"), .term (valueOf "times")]),
        .«return» (unplaced "return") (some (.term (.call (.mk (unplaced "Row") (some "Row") "new"
          [.term (valueOf "size"), .term (valueOf "cells")]))))]]

/-- The commands of the class of rows. -/
def rowsCode : List Command := [
  .function "Row.new" 0, .push .constant 2, .call "Memory.alloc" 1, .pop .pointer 0,
  .push .argument 0, .pop .this 0, .push .argument 1, .pop .this 1,
  .push .static 0, .push .constant 1, .arithmetic .add, .pop .static 0, .push .pointer 0, .«return»,
  .function "Row.scale" 1, .push .argument 0, .pop .pointer 0,
  .label "WHILE_1", .push .«local» 0, .push .this 0, .arithmetic .lt, .arithmetic .not,
  .ifGoto "END_WHILE_1", .push .this 1, .push .«local» 0, .arithmetic .add,
  .push .this 1, .push .«local» 0, .push .argument 1, .arithmetic .add, .arithmetic .add,
  .pop .pointer 1, .push .that 0, .push .argument 2, .call "Math.multiply" 2,
  .pop .temp 0, .pop .pointer 1, .push .temp 0, .pop .that 0,
  .push .«local» 0, .push .constant 1, .arithmetic .add, .pop .«local» 0,
  .goto "WHILE_1", .label "END_WHILE_1",
  .push .pointer 0, .push .argument 2, .push .pointer 0, .call "Row.last" 3, .«return»,
  .function "Row.last" 0, .push .argument 0, .pop .pointer 0,
  .push .argument 2, .push .static 0, .push .argument 1, .call "Row.scale" 3, .pop .temp 0,
  .push .this 0, .push .this 1, .call "Row.new" 2, .«return»]

/-- Calls that multiply, leave what is shared as it is, and spoil the rest. -/
def multiplying : Interpretation where
  answer _ values shared := (values.foldl (· * ·) 1, shared)
  that _ _ _ that := that + 1
  temp _ _ _ _ := fun _ => 0

theorem rows_keepMeaning : compileClass rows = .ok rowsCode ∧ rows.Fits ∧
    ∃ codes, rowsCode = codes.flatten ∧
      List.Forall₂ (fun subroutine code => KeepsMeaning rows subroutine ⟨"Row", code, multiplying⟩)
        rows.subroutines codes := by
  have compiled : compileClass rows = .ok rowsCode := (compileClass_eq rows).trans (by decide)
  have fits : rows.Fits := by
    simp [Class.Fits, rows, rowRoutine, valueOf, statementsFit, Statement.Fits, Expression.Fits,
      Term.Fits, Call.Fits, argumentsFit]
  exact ⟨compiled, fits, compileClass_keepsMeaning compiled fits multiplying⟩

end Example

end Jack
end HackToolchain
