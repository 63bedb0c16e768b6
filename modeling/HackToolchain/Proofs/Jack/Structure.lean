import HackToolchain.Proofs.Jack.Classes
import HackToolchain.Proofs.Jack.Spelling
import HackToolchain.Proofs.Token.Spelling
import HackToolchain.Proofs.Vm.Linking

namespace HackToolchain
namespace Jack

/-!
# The structure of emitted code

Whatever tree it is written for, emitted code is put together in a few ways only.  `Pushing` are the
ways in which code comes to leave words on the stack, and `Finishing` those in which code comes to
leave none.  They tell nothing of names, labels or values, and just for that reason a property of all
emitted code can be proved without looking at trees again: by induction on how the code is put
together.

The code of every tree is put together in these ways as long as no call in it passes more arguments
than the stack machine takes.  How many a call passes depends on the scopes, because a receiver counts
as one.
-/

open Vm

/-! ## Argument limits -/

/-- No call in a part of a subroutine passes more arguments than the stack machine takes, the receiver
included. -/
def Part.FewArguments (scopes : Scopes) (whole : Part) : Prop :=
  ∀ token qualifier routine values,
    Part.Inside (.call (.mk token qualifier routine values)) whole ->
      (receiverCode scopes qualifier routine).1.length + values.length ≤ maxArguments.toNat

theorem Part.FewArguments.child {scopes : Scopes} {part whole : Part}
    (few : whole.FewArguments scopes) (child : Part.Child part whole) :
    part.FewArguments scopes := by
  intro token qualifier routine values inside
  exact few token qualifier routine values (inside.tail child)

/-- No call in a class passes more arguments than the stack machine takes, the receiver included. -/
def Class.FewArguments (tree : Class) : Prop :=
  ∀ ofClass, Code.classScope tree.declarations = .ok ofClass ->
    ∀ subroutine ∈ tree.subroutines, ∀ ofSubroutine,
      Code.subroutineScope tree.name subroutine = .ok ofSubroutine ->
        Part.FewArguments ⟨tree.name, ofClass, ofSubroutine⟩ (.statements subroutine.statements)

/-- The tokens that a part is written with. -/
def Part.spelling : Part -> List Token
  | .term tree => tree.spelling
  | .expression tree => tree.spelling
  | .call tree => tree.spelling
  | .arguments trees => argumentsSpelling trees
  | .statement tree => tree.spelling
  | .statements trees => statementsSpelling trees

theorem length_le_otherArgumentsSpelling (values : List Expression) :
    values.length ≤ (otherArgumentsSpelling values).length := by
  induction values with
  | nil => exact Nat.le_refl 0
  | cons first rest inductionHypothesis =>
      simp only [otherArgumentsSpelling, List.length_cons, List.length_append]
      omega

theorem length_le_argumentsSpelling (values : List Expression) :
    values.length ≤ (argumentsSpelling values).length + 1 := by
  cases values with
  | nil => exact Nat.zero_le _
  | cons first rest =>
      have others := length_le_otherArgumentsSpelling rest
      simp only [argumentsSpelling, List.length_cons, List.length_append]
      omega

theorem length_argumentsSpelling_le (values : List Expression) :
    (argumentsSpelling values).length ≤ (otherArgumentsSpelling values).length := by
  cases values with
  | nil => exact Nat.le_refl 0
  | cons first rest => exact Nat.le_succ _

/-- A part is written with no fewer tokens than the parts in it. -/
theorem Part.Child.length_spelling_le {part whole : Part} (child : Part.Child part whole) :
    part.spelling.length ≤ whole.spelling.length := by
  cases child with
  | otherArguments first rest =>
      exact (length_argumentsSpelling_le rest).trans (by simp [Part.spelling, argumentsSpelling])
  | assigned token name index value =>
      simp only [Part.spelling, Statement.spelling, List.length_cons, List.length_append]
      omega
  | _ =>
      simp only [Part.spelling, Term.spelling, Expression.spelling, Call.spelling, argumentsSpelling,
        Statement.spelling, statementsSpelling, indexSpelling, valueSpelling, alternativeSpelling,
        enclosed, List.length_cons, List.length_append]
      omega

theorem Part.Inside.length_spelling_le {part whole : Part} (inside : Part.Inside part whole) :
    part.spelling.length ≤ whole.spelling.length := by
  induction inside using Relation.ReflTransGen.head_induction_on with
  | refl => exact Nat.le_refl _
  | head child _ inductionHypothesis => exact child.length_spelling_le.trans inductionHypothesis

/-- A part that is written with few tokens passes few arguments. -/
theorem Part.FewArguments.of_spelling {scopes : Scopes} {whole : Part}
    (short : whole.spelling.length ≤ maxArguments.toNat) : whole.FewArguments scopes := by
  intro token qualifier routine values inside
  have within : (Call.mk token qualifier routine values).spelling.length ≤ whole.spelling.length :=
    Part.Inside.length_spelling_le inside
  have receivers := length_receiverCode_le scopes qualifier routine
  have separated := length_le_argumentsSpelling values
  simp only [Call.spelling, enclosed, List.length_append, List.length_cons] at within
  omega

theorem Class.fewArguments_of_spelling {tree : Class} (short : ∀ subroutine ∈ tree.subroutines,
    (statementsSpelling subroutine.statements).length ≤ maxArguments.toNat) : tree.FewArguments :=
  fun _ _ subroutine member _ _ => .of_spelling (short subroutine member)

/-! ## Ways to put code together -/

/-- Code that leaves a number of words on the stack. -/
inductive Pushing : Nat -> List Command -> Prop where
  | nothing : Pushing 0 []
  | append {count more : Nat} {first second : List Command} (before : Pushing count first)
      (behind : Pushing more second) : Pushing (count + more) (first ++ second)
  | push {segment : Segment} {index : UInt16}
      (valid : (Command.push segment index).fault? = none) : Pushing 1 [.push segment index]
  | operate {code : List Command} (operation : Operation)
      (operands : Pushing operation.operands code) :
      Pushing 1 (code ++ [.arithmetic operation])
  | call {code : List Command} (name : String) {arguments : UInt16}
      (few : arguments ≤ maxArguments) (pushed : Pushing arguments.toNat code) :
      Pushing 1 (code ++ [.call name arguments])
  /-- Replace an address by the word that is stored there. -/
  | element {code : List Command} (address : Pushing 1 code) :
      Pushing 1 (code ++ [.pop .pointer 1, .push .that 0])

/-- Code that leaves no words on the stack. -/
inductive Finishing : List Command -> Prop where
  | nothing : Finishing []
  | append {first second : List Command} (before : Finishing first) (behind : Finishing second) :
      Finishing (first ++ second)
  | pop {code : List Command} {segment : Segment} {index : UInt16}
      (valid : (Command.pop segment index).fault? = none) (value : Pushing 1 code) :
      Finishing (code ++ [.pop segment index])
  | store {front behind : List Command} (address : Pushing 1 front) (value : Pushing 1 behind) :
      Finishing (front ++ behind ++ [.pop .temp 0, .pop .pointer 1, .push .temp 0, .pop .that 0])
  | branch {test inner : List Command} (finish : String) (tested : Pushing 1 test)
      (body : Finishing inner) : Finishing (test ++ [.ifGoto finish] ++ inner ++ [.label finish])
  | alternative {test inner other : List Command} (otherwise finish : String)
      (tested : Pushing 1 test) (body : Finishing inner) (rest : Finishing other) :
      Finishing (test ++ [.ifGoto otherwise] ++ inner ++ [.goto finish, .label otherwise] ++ other ++
        [.label finish])
  | loop {test inner : List Command} (start finish : String) (tested : Pushing 1 test)
      (body : Finishing inner) :
      Finishing ([.label start] ++ test ++ [.ifGoto finish] ++ inner ++
        [.goto start, .label finish])
  | «return» {code : List Command} (value : Pushing 1 code) : Finishing (code ++ [.«return»])

/-! ## Expressions -/

theorem pushing_variable (declared : Variable) : Pushing 1 [declared.push] := by
  apply Pushing.push
  cases declared.kind <;> rfl

theorem valid_pop (declared : Variable) : declared.pop.fault? = none := by
  unfold Variable.pop
  cases declared.kind <;> rfl

theorem pushing_characters {front : List Command} (object : Pushing 1 front)
    (characters : List Char) :
    Pushing 1 (front ++ characters.flatMap fun character =>
      [.push .constant (UInt16.ofNat character.toNat), .call "String.appendChar" 2]) := by
  induction characters generalizing front with
  | nil =>
      rw [List.flatMap_nil, List.append_nil]
      exact object
  | cons character rest inductionHypothesis =>
      have pushed : Pushing (1 + 1) (front ++ [.push .constant (UInt16.ofNat character.toNat)]) :=
        object.append (.push rfl)
      have called : Pushing 1 ((front ++ [.push .constant (UInt16.ofNat character.toNat)]) ++
          [.call "String.appendChar" 2]) := .call _ (by decide) pushed
      rw [List.append_assoc] at called
      rw [List.flatMap_cons, ← List.append_assoc]
      exact inductionHypothesis called

theorem pushing_string (text : String) : Pushing 1 (Code.string text) := by
  have length : Pushing 1 [.push .constant (UInt16.ofNat text.length)] := .push rfl
  have made : Pushing 1 ([.push .constant (UInt16.ofNat text.length)] ++ [.call "String.new" 1]) :=
    .call _ (by decide) length
  exact pushing_characters made text.toList

theorem pushing_constant (value : Constant) : Pushing 1 (Code.constant value) := by
  cases value with
  | true => exact .operate .neg (.push rfl)
  | _ => exact .push rfl

theorem pushing_receiver (scopes : Scopes) (qualifier : Option String) (routine : String) :
    Pushing (receiverCode scopes qualifier routine).1.length
      (receiverCode scopes qualifier routine).1 := by
  unfold receiverCode
  split
  · exact .push rfl
  · split
    · exact pushing_variable _
    · exact .nothing

mutual

theorem pushing_term {scopes : Scopes} {labels after : LabelCounts} {commands : List Command} :
    (tree : Term) -> (Part.term tree).FewArguments scopes ->
      Writes (Code.term scopes tree) labels commands () after -> Pushing 1 commands
  | .integer _ _, _, writes => by
      obtain ⟨rfl, rfl⟩ := writes_emit.mp writes
      exact .push rfl
  | .string token, _, writes => by
      obtain ⟨rfl, rfl⟩ := writes_emit.mp writes
      exact pushing_string token.literal
  | .constant _ value, _, writes => by
      obtain ⟨rfl, rfl⟩ := writes_emit.mp writes
      exact pushing_constant value
  | .variable _, _, writes => by
      obtain ⟨declared, -, rfl, rfl⟩ := writes_variable writes
      exact pushing_variable declared
  | .element token index, few, writes => by
      obtain ⟨array, inner, -, indexes, rfl⟩ := writes_element writes
      have indexed := pushing_expression index (few.child (.element token index)) indexes
      have address := Pushing.operate .add ((pushing_variable array).append indexed)
      simpa only [List.append_assoc, List.cons_append, List.nil_append] using address.element
  | .call target, few, writes => pushing_call target (few.child (.called target)) writes
  | .group token inner, few, writes =>
      pushing_expression inner (few.child (.group token inner)) writes
  | .unary token operator operand, few, writes => by
      obtain ⟨inner, operands, rfl⟩ := writes_unary writes
      have pushed := pushing_term operand (few.child (.operand token operator operand)) operands
      cases operator with
      | neg => exact .operate .neg pushed
      | not => exact .operate .not pushed

theorem pushing_expression {scopes : Scopes} {labels after : LabelCounts}
    {commands : List Command} :
    (tree : Expression) -> (Part.expression tree).FewArguments scopes ->
      Writes (Code.expression scopes tree) labels commands () after -> Pushing 1 commands
  | .term first, few, writes => pushing_term first (few.child (.single first)) writes
  | .binary left operator right, few, writes => by
      obtain ⟨between, first, second, lefts, rights, rfl⟩ := writes_binary writes
      have both : Pushing 2 (first ++ second) :=
        (pushing_expression left (few.child (.left left operator right)) lefts).append
          (pushing_term right (few.child (.right left operator right)) rights)
      cases operator with
      | mul => exact .call _ (by decide) both
      | div => exact .call _ (by decide) both
      | _ => exact .operate _ both

theorem pushing_call {scopes : Scopes} {labels after : LabelCounts} {commands : List Command} :
    (tree : Call) -> (Part.call tree).FewArguments scopes ->
      Writes (Code.call scopes tree) labels commands () after -> Pushing 1 commands
  | .mk token qualifier routine values, few, writes => by
      obtain ⟨inner, pushes, rfl⟩ := writes_call writes
      have pushed := (pushing_receiver scopes qualifier routine).append
        (pushing_arguments values (few.child (.arguments token qualifier routine values)) pushes)
      have limit := few token qualifier routine values .refl
      generalize (receiverCode scopes qualifier routine).1.length + values.length = count at *
      have counted : (UInt16.ofNat count).toNat = count :=
        UInt16.toNat_ofNat_of_lt (Nat.lt_of_le_of_lt limit (by decide))
      refine .call _ ?_ (counted.symm ▸ pushed)
      rw [UInt16.le_iff_toNat_le, counted]
      exact limit

theorem pushing_arguments {scopes : Scopes} {labels after : LabelCounts}
    {commands : List Command} :
    (trees : List Expression) -> (Part.arguments trees).FewArguments scopes ->
      Writes (Code.arguments scopes trees) labels commands () after ->
        Pushing trees.length commands
  | [], _, writes => by
      obtain ⟨rfl, -, rfl⟩ := writes_pure.mp writes
      exact .nothing
  | first :: rest, few, writes => by
      obtain ⟨between, front, behind, firsts, rests, rfl⟩ := writes_arguments writes
      have pushed := (pushing_expression first (few.child (.argument first rest)) firsts).append
        (pushing_arguments rest (few.child (.otherArguments first rest)) rests)
      rw [List.length_cons, Nat.add_comm]
      exact pushed

end

/-! ## Statements -/

mutual

theorem finishing_statement {scopes : Scopes} {labels after : LabelCounts}
    {commands : List Command} :
    (tree : Statement) -> (Part.statement tree).FewArguments scopes ->
      Writes (Code.statement scopes tree) labels commands () after -> Finishing commands
  | .assign token name none value, few, writes => by
      obtain ⟨inner, declared, values, -, rfl⟩ := writes_assign writes
      exact .pop (valid_pop declared)
        (pushing_expression value (few.child (.assigned token name none value)) values)
  | .assign token name (some index) value, few, writes => by
      obtain ⟨array, _, front, behind, -, indexes, values, rfl⟩ := writes_assignElement writes
      have indexed := pushing_expression index (few.child (.index token name index value)) indexes
      have address := Pushing.operate .add ((pushing_variable array).append indexed)
      have valued := pushing_expression value
        (few.child (.assigned token name (some index) value)) values
      exact .store address valued
  | .branch token condition consequence none, few, writes => by
      obtain ⟨between, test, inner, tests, inners, rfl⟩ := writes_branch writes
      have tested := Pushing.operate .not (pushing_expression condition
        (few.child (.branchCondition token condition consequence none)) tests)
      have body := finishing_statements consequence
        (few.child (.consequence token condition consequence none)) inners
      simpa only [List.append_assoc, List.cons_append, List.nil_append] using
        Finishing.branch (between.next .endIf).1 tested body
  | .branch token condition consequence (some alternative), few, writes => by
      obtain ⟨between, finish, otherwise, middle, test, inner, other, tests, rfl, rfl, inners,
        others, rfl⟩ := writes_alternative writes
      have tested := Pushing.operate .not (pushing_expression condition
        (few.child (.branchCondition token condition consequence (some alternative))) tests)
      have body := finishing_statements consequence
        (few.child (.consequence token condition consequence (some alternative))) inners
      have rest := finishing_statements alternative
        (few.child (.alternative token condition consequence alternative)) others
      simpa only [List.append_assoc, List.cons_append, List.nil_append] using
        Finishing.alternative ((between.next .endIf).2.next .elseIf).1 (between.next .endIf).1
          tested body rest
  | .loop token condition body, few, writes => by
      obtain ⟨start, finish, middle, test, inner, rfl, rfl, tests, inners, rfl⟩ :=
        writes_loop writes
      have tested := Pushing.operate .not (pushing_expression condition
        (few.child (.loopCondition token condition body)) tests)
      have repeated := finishing_statements body (few.child (.body token condition body)) inners
      simpa only [List.append_assoc, List.cons_append, List.nil_append] using
        Finishing.loop (labels.next .beginWhile).1 ((labels.next .beginWhile).2.next .endWhile).1
          tested repeated
  | .perform token target, few, writes => by
      obtain ⟨inner, calls, rfl⟩ := writes_perform writes
      exact .pop rfl (pushing_call target (few.child (.performed token target)) calls)
  | .«return» _ none, _, writes => by
      obtain ⟨rfl, rfl⟩ := writes_emit.mp writes
      exact .«return» (.push rfl)
  | .«return» token (some value), few, writes => by
      obtain ⟨inner, values, rfl⟩ := writes_return writes
      exact .«return» (pushing_expression value (few.child (.returned token value)) values)

theorem finishing_statements {scopes : Scopes} {labels after : LabelCounts}
    {commands : List Command} :
    (trees : List Statement) -> (Part.statements trees).FewArguments scopes ->
      Writes (Code.statements scopes trees) labels commands () after -> Finishing commands
  | [], _, writes => by
      obtain ⟨rfl, -, rfl⟩ := writes_pure.mp writes
      exact .nothing
  | first :: rest, few, writes => by
      obtain ⟨between, front, behind, firsts, rests, rfl⟩ := writes_statements writes
      exact (finishing_statement first (few.child (.first first rest)) firsts).append
        (finishing_statements rest (few.child (.rest first rest)) rests)

end

/-! ## Subroutines -/

theorem finishing_prologue (fields : UInt16) (kind : SubroutineKind) :
    Finishing (Code.prologue fields kind) := by
  cases kind with
  | constructor =>
      have size : Pushing 1 [.push .constant fields] := .push rfl
      have object : Pushing 1 ([.push .constant fields] ++ [.call "Memory.alloc" 1]) :=
        .call _ (by decide) size
      exact .pop rfl object
  | method =>
      have object : Pushing 1 [.push .argument 0] := .push rfl
      exact .pop rfl object
  | function => exact .nothing

/-- The code of a subroutine is its entry, and a body that leaves no words on the stack and defines no
label twice. -/
def IsSubroutine (tree : Class) (subroutine : Subroutine) (code : List Command) : Prop :=
  ∃ locals body, code = .function (Code.qualified tree.name subroutine.name) locals :: body ∧
    Finishing body ∧ (definedLabels body).Nodup

/-- The code of a class is the code of its subroutines one behind the other. -/
theorem compileClass_structure {tree : Class} {commands : List Command}
    (compiled : compileClass tree = .ok commands) (few : tree.FewArguments) :
    ∃ codes, commands = codes.flatten ∧
      List.Forall₂ (IsSubroutine tree) tree.subroutines codes := by
  obtain ⟨ofClass, after, entered, writes⟩ := compileClass_eq_ok compiled
  obtain ⟨codes, rfl, each⟩ := writes_subroutines writes
  refine ⟨codes, rfl, each.imp ?_⟩
  intro subroutine code ⟨member, labels, between, writes⟩
  obtain ⟨scope, body, made, bodies, rfl⟩ := writes_subroutine writes
  have limited := few ofClass entered subroutine member scope made
  have statements := finishing_statements subroutine.statements limited bodies
  have prologue := finishing_prologue (ofClass.count .field) subroutine.kind
  exact ⟨_, _, rfl, prologue.append statements, nodup_definedLabels bodies _ _⟩

/-! ## Jumps -/

/-- Code that leaves words on the stack does not jump. -/
theorem Pushing.noJump {count : Nat} {code : List Command} (pushing : Pushing count code) :
    jumpTargets code = [] := by
  induction pushing with
  | nothing => rfl
  | append _ _ first second => rw [jumpTargets_append, first, second, List.append_nil]
  | push _ => rfl
  | operate operation _ operands =>
      rw [jumpTargets_append, operands]
      rfl
  | call _ _ _ pushed =>
      rw [jumpTargets_append, pushed]
      rfl
  | element _ address =>
      rw [jumpTargets_append, address]
      rfl

/-- Every jump in emitted code has its label there. -/
theorem Finishing.closed {code : List Command} (finishing : Finishing code) :
    ∀ target ∈ jumpTargets code, target ∈ definedLabels code := by
  have jump (name : String) : jumpTargets [.ifGoto name] = [name] := rfl
  have leave (name other : String) : jumpTargets [.goto name, .label other] = [name] := rfl
  have noJump (name : String) : jumpTargets [.label name] = [] := rfl
  have label (name : String) : definedLabels [.label name] = [name] := rfl
  have behind (name other : String) : definedLabels [.goto other, .label name] = [name] := rfl
  induction finishing with
  | nothing => exact nofun
  | append _ _ first second =>
      intro target member
      rw [jumpTargets_append] at member
      rw [definedLabels_append]
      exact List.mem_append.mpr ((List.mem_append.mp member).imp (first target) (second target))
  | pop _ value =>
      rw [jumpTargets_append, value.noJump]
      exact nofun
  | store address value =>
      rw [jumpTargets_append, jumpTargets_append, address.noJump, value.noJump]
      exact nofun
  | branch finish tested _ body =>
      intro target member
      simp only [jumpTargets_append, tested.noJump, jump, noJump, List.mem_append,
        List.mem_singleton, List.not_mem_nil, false_or, or_false] at member
      simp only [definedLabels_append, label, List.mem_append, List.mem_singleton]
      rcases member with rfl | inside
      · exact .inr rfl
      · exact .inl (.inr (body target inside))
  | alternative otherwise finish tested _ _ body rest =>
      intro target member
      simp only [jumpTargets_append, tested.noJump, jump, leave, noJump, List.mem_append,
        List.mem_singleton, List.not_mem_nil, false_or, or_false] at member
      simp only [definedLabels_append, label, behind, List.mem_append, List.mem_singleton]
      rcases member with ((rfl | inside) | rfl) | inside
      · exact .inl (.inl (.inr rfl))
      · exact .inl (.inl (.inl (.inr (body target inside))))
      · exact .inr rfl
      · exact .inl (.inr (rest target inside))
  | loop start finish tested _ body =>
      intro target member
      simp only [jumpTargets_append, tested.noJump, jump, leave, noJump, List.mem_append,
        List.mem_singleton, List.not_mem_nil, false_or] at member
      simp only [definedLabels_append, label, behind, List.mem_append, List.mem_singleton]
      rcases member with (rfl | inside) | rfl
      · exact .inr rfl
      · exact .inl (.inr (body target inside))
      · exact .inl (.inl (.inl (.inl rfl)))
  | «return» value =>
      rw [jumpTargets_append, value.noJump]
      exact nofun

/-! ## Faults -/

theorem Pushing.inner {count : Nat} {code : List Command} (pushing : Pushing count code) :
    AllInner code := by
  induction pushing with
  | nothing => exact .nil
  | append _ _ first second => exact first.append second
  | push valid => exact .cons ⟨valid, nofun⟩ .nil
  | operate operation _ operands => exact operands.append (.cons ⟨rfl, nofun⟩ .nil)
  | call name few _ pushed => exact pushed.append (.cons ⟨if_pos few, nofun⟩ .nil)
  | element _ address =>
      exact address.append (.cons ⟨rfl, nofun⟩ (.cons ⟨rfl, nofun⟩ .nil))

theorem Finishing.inner {code : List Command} (finishing : Finishing code) : AllInner code := by
  have jump (name : String) : IsInner (.ifGoto name) := ⟨rfl, nofun⟩
  have leave (name : String) : IsInner (.goto name) := ⟨rfl, nofun⟩
  have label (name : String) : IsInner (.label name) := ⟨rfl, nofun⟩
  induction finishing with
  | nothing => exact .nil
  | append _ _ first second => exact first.append second
  | pop valid value => exact value.inner.append (.cons ⟨valid, nofun⟩ .nil)
  | store address value =>
      refine (address.inner.append value.inner).append ?_
      exact .cons ⟨rfl, nofun⟩ (.cons ⟨rfl, nofun⟩ (.cons ⟨rfl, nofun⟩ (.cons ⟨rfl, nofun⟩ .nil)))
  | branch finish tested _ body =>
      exact ((tested.inner.append (.cons (jump _) .nil)).append body).append (.cons (label _) .nil)
  | alternative otherwise finish tested _ _ body rest =>
      refine AllInner.append (.append (.append ?_ ?_) rest) (.cons (label _) .nil)
      · exact (tested.inner.append (.cons (jump _) .nil)).append body
      · exact .cons (leave _) (.cons (label _) .nil)
  | loop start finish tested _ body =>
      refine AllInner.append (.append (.append (.append ?_ tested.inner) ?_) body) ?_
      · exact .cons (label _) .nil
      · exact .cons (jump _) .nil
      · exact .cons (leave _) (.cons (label _) .nil)
  | «return» value => exact value.inner.append (.cons ⟨rfl, nofun⟩ .nil)

section Example

/-- A token in a column of the first line. -/
def inColumn (column : Nat) (token : Token) : Token := { token with position := ⟨1, column⟩ }

/-- A method that calls itself as long as it has to. -/
def boxMethod : Subroutine where
  token := inColumn 13 (.ofKeyword .method)
  kind := .method
  returns := none
  name := "put"
  parameters := [⟨inColumn 29 (.ofKeyword .int), .int, "at"⟩]
  opening := inColumn 37 (.ofMark .leftBrace)
  locals := []
  statements := [
    .loop (inColumn 39 (.ofKeyword .«while»)) (.term (.variable (inColumn 46 (.ofName "at"))))
      [.perform (inColumn 52 (.ofKeyword .«do»))
        (.mk (inColumn 55 (.ofName "put")) none "put"
          [.term (.variable (inColumn 59 (.ofName "at")))])],
    .«return» (inColumn 66 (.ofKeyword .«return»)) none]

/-- A class with that method. -/
def box : Class where
  token := inColumn 1 (.ofKeyword .«class»)
  name := "Box"
  declarations := []
  subroutines := [boxMethod]

/-- The commands of the class. -/
def boxCode : List Command := [
  .function "Box.put" 0, .push .argument 0, .pop .pointer 0,
  .label "WHILE_1", .push .argument 1, .arithmetic .not, .ifGoto "END_WHILE_1",
  .push .pointer 0, .push .argument 1, .call "Box.put" 2, .pop .temp 0,
  .goto "WHILE_1", .label "END_WHILE_1", .push .constant 0, .«return»]

theorem compileClass_box : compileClass box = .ok boxCode := (compileClass_eq box).trans (by decide)

theorem fewArguments_box : box.FewArguments :=
  Class.fewArguments_of_spelling (List.forall_mem_singleton.mpr (by decide))

end Example

end Jack
end HackToolchain
