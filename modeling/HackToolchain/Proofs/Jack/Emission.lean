import HackToolchain.Jack.Code
import HackToolchain.Proofs.Text.Numbered
import HackToolchain.Proofs.Vm.Activation

namespace HackToolchain
namespace Jack

/-!
# What emissions write

An emission that does not stop writes the code of its parts one behind the other.  `Writes` says what
it writes and how far it has counted labels by then, and is taken apart along the emission's own
construction.

A class uses every label once.  Labels are numbered upwards, so the labels that a stretch of code
defines are told apart from all others by the counts before and after it.
-/

open Vm

/-- An emission goes from a count of labels to another, writes commands and has a value. -/
def Writes (emission : Emission α) (labels : LabelCounts) (commands : List Command) (value : α)
    (after : LabelCounts) : Prop :=
  emission labels = ⟨commands, after, .ok value⟩

section Writing

variable {labels after : LabelCounts} {commands : List Command}

theorem writes_bind {first : Emission α} {next : α -> Emission β} {value : β} :
    Writes (first >>= next) labels commands value after ↔
      ∃ read between before behind, Writes first labels before read between ∧
        Writes (next read) between behind value after ∧ commands = before ++ behind := by
  change Emission.andThen first next labels = _ ↔ _
  unfold Emission.andThen Writes
  rcases written : first labels with ⟨before, between, result⟩
  cases result with
  | error error =>
      constructor
      · intro same
        cases same
      · rintro ⟨read, other, front, rest, same, -, -⟩
        cases same
  | ok read =>
      dsimp only
      rcases more : next read between with ⟨behind, last, result⟩
      constructor
      · intro same
        cases same
        exact ⟨read, between, before, behind, rfl, more, rfl⟩
      · rintro ⟨other, counts, front, rest, same, further, rfl⟩
        cases same
        rw [more] at further
        cases further
        rfl

theorem writes_pure {value other : α} :
    Writes (pure value) labels commands other after ↔
      commands = [] ∧ value = other ∧ labels = after := by
  change (⟨[], labels, .ok value⟩ : Emitted α) = ⟨commands, after, .ok other⟩ ↔ _
  rw [Emitted.mk.injEq, Except.ok.injEq, eq_comm, and_congr_right_iff]
  exact fun _ => and_comm

theorem writes_emit {written : List Command} :
    Writes (Emission.emit written) labels commands () after ↔
      commands = written ∧ labels = after := by
  change (⟨written, labels, .ok ()⟩ : Emitted Unit) = ⟨commands, after, .ok ()⟩ ↔ _
  rw [Emitted.mk.injEq, eq_comm]
  simp

theorem writes_freshLabel {base : LabelBase} {label : String} :
    Writes (Emission.freshLabel base) labels commands label after ↔
      commands = [] ∧ label = (labels.next base).1 ∧ after = (labels.next base).2 := by
  change (⟨[], (labels.next base).2, .ok (labels.next base).1⟩ : Emitted String) =
    ⟨commands, after, .ok label⟩ ↔ _
  rw [Emitted.mk.injEq, Except.ok.injEq]
  constructor
  · rintro ⟨rfl, rfl, rfl⟩
    exact ⟨rfl, rfl, rfl⟩
  · rintro ⟨rfl, rfl, rfl⟩
    exact ⟨rfl, rfl, rfl⟩

/-- A name that is resolved is declared. -/
theorem writes_resolve {scopes : Scopes} {name : String} {position : Position}
    {declared : Variable} :
    Writes (scopes.resolve name position) labels commands declared after ↔
      commands = [] ∧ scopes.lookup? name = some declared ∧ labels = after := by
  unfold Scopes.resolve
  cases known : scopes.lookup? name with
  | none =>
      constructor
      · intro writes
        cases writes
      · rintro ⟨-, same, -⟩
        cases same
  | some other =>
      rw [Option.some.injEq]
      exact writes_pure

end Writing

/-! ## Labels -/

/-- The label of a base with a number. -/
def numbered (base : LabelBase) (number : Nat) : String := base.text ++ "_" ++ toString number

theorem numbered_inj {base base' : LabelBase} {number number' : Nat}
    (same : numbered base number = numbered base' number') : base = base' ∧ number = number' := by
  have lists := congrArg String.toList same
  simp only [numbered, String.toList_append, List.append_assoc] at lists
  rcases append_cons_inj (notMem_digits (by decide) number) (notMem_digits (by decide) number')
    lists with ⟨texts, digits⟩
  constructor
  · cases base <;> cases base' <;> first | rfl | (exact absurd texts (by decide))
  · exact toString_inj digits

/-- The label was made between two counts. -/
def MadeBetween (labels after : LabelCounts) (name : String) : Prop :=
  ∃ base number, name = numbered base number ∧ labels.get base < number ∧ number ≤ after.get base

/-- Later counts are nowhere smaller. -/
def LabelCounts.Le (labels after : LabelCounts) : Prop := ∀ base, labels.get base ≤ after.get base

theorem LabelCounts.Le.trans {first second third : LabelCounts} (before : first.Le second)
    (behind : second.Le third) : first.Le third :=
  fun base => Nat.le_trans (before base) (behind base)

theorem MadeBetween.widen {labels labels' after after' : LabelCounts} {name : String}
    (made : MadeBetween labels after name) (before : labels'.Le labels) (behind : after.Le after') :
    MadeBetween labels' after' name := by
  rcases made with ⟨base, number, rfl, above, below⟩
  exact ⟨base, number, rfl, Nat.lt_of_le_of_lt (before base) above,
    Nat.le_trans below (behind base)⟩

/-- A label is not made twice. -/
theorem MadeBetween.disjoint {first second third : LabelCounts} {name : String}
    (before : MadeBetween first second name) (behind : MadeBetween second third name) : False := by
  rcases before with ⟨base, number, rfl, -, below⟩
  rcases behind with ⟨other, number', same, above, -⟩
  rcases numbered_inj same with ⟨rfl, rfl⟩
  omega

/-- The counts have grown, and the labels that commands define were made meanwhile and are all
different. -/
structure LabelsFresh (labels after : LabelCounts) (commands : List Command) : Prop where
  grows : labels.Le after
  made : ∀ name ∈ definedLabels commands, MadeBetween labels after name
  nodup : (definedLabels commands).Nodup

namespace LabelsFresh

theorem none {labels : LabelCounts} {commands : List Command}
    (undefined : definedLabels commands = []) : LabelsFresh labels labels commands := by
  refine ⟨fun _ => Nat.le_refl _, ?_, ?_⟩
  · rw [undefined]
    exact fun _ member => absurd member List.not_mem_nil
  · rw [undefined]
    exact List.nodup_nil

theorem append {labels between after : LabelCounts} {first second : List Command}
    (before : LabelsFresh labels between first) (behind : LabelsFresh between after second) :
    LabelsFresh labels after (first ++ second) := by
  refine ⟨before.grows.trans behind.grows, ?_, ?_⟩
  · intro name member
    rw [definedLabels_append] at member
    rcases List.mem_append.mp member with inFirst | inSecond
    · exact (before.made name inFirst).widen (fun _ => Nat.le_refl _) behind.grows
    · exact (behind.made name inSecond).widen before.grows fun _ => Nat.le_refl _
  · rw [definedLabels_append]
    refine List.nodup_append.mpr ⟨before.nodup, behind.nodup, ?_⟩
    intro name inFirst other inSecond same
    subst same
    exact (before.made name inFirst).disjoint (behind.made name inSecond)

end LabelsFresh

theorem next_eq (labels : LabelCounts) (base : LabelBase) :
    (labels.next base).1 = numbered base (labels.get base + 1) ∧
      (labels.next base).2.get base = labels.get base + 1 ∧
      labels.Le (labels.next base).2 := by
  have counted : (labels.increment base).get base = labels.get base + 1 := by cases base <;> rfl
  refine ⟨?_, counted, ?_⟩
  · rw [LabelCounts.next, counted]
    rfl
  · intro other
    cases base <;> cases other <;> simp [LabelCounts.next, LabelCounts.increment, LabelCounts.get]

theorem made_next (labels : LabelCounts) (base : LabelBase) :
    MadeBetween labels (labels.next base).2 (labels.next base).1 := by
  rcases next_eq labels base with ⟨label, counted, -⟩
  exact ⟨base, labels.get base + 1, label, Nat.lt_succ_self _,
    Nat.le_of_eq counted.symm⟩

namespace LabelsFresh

/-- A label that was made before a stretch of code can be put behind it. -/
theorem behind {labels between after : LabelCounts} {commands : List Command} {label : String}
    (made : MadeBetween labels between label) (before : labels.Le between)
    (fresh : LabelsFresh between after commands) :
    LabelsFresh labels after (commands ++ [.label label]) := by
  refine ⟨before.trans fresh.grows, ?_, ?_⟩
  · intro name member
    rw [definedLabels_append] at member
    rcases List.mem_append.mp member with inside | last
    · exact (fresh.made name inside).widen before fun _ => Nat.le_refl _
    · rw [List.mem_singleton.mp last]
      exact made.widen (fun _ => Nat.le_refl _) fresh.grows
  · rw [definedLabels_append]
    refine List.nodup_append.mpr ⟨fresh.nodup, List.pairwise_singleton _ label, ?_⟩
    intro name inside other last same
    rw [List.mem_singleton.mp last] at same
    subst same
    exact made.disjoint (fresh.made name inside)

/-- A label that was made before a stretch of code can be put in front of it. -/
theorem inFront {labels between after : LabelCounts} {commands : List Command} {label : String}
    (made : MadeBetween labels between label) (before : labels.Le between)
    (fresh : LabelsFresh between after commands) :
    LabelsFresh labels after (.label label :: commands) := by
  refine ⟨before.trans fresh.grows, ?_, ?_⟩
  · intro name member
    rcases List.mem_cons.mp member with rfl | inside
    · exact made.widen (fun _ => Nat.le_refl _) fresh.grows
    · exact (fresh.made name inside).widen before fun _ => Nat.le_refl _
  · exact List.nodup_cons.mpr
      ⟨fun inside => made.disjoint (fresh.made label inside), fresh.nodup⟩

end LabelsFresh

/-! ## The code of expressions -/

section Expressions

variable {scopes : Scopes} {labels after : LabelCounts} {commands : List Command}

theorem writes_variable {token : Token}
    (writes : Writes (Code.term scopes (.variable token)) labels commands () after) :
    ∃ declared, scopes.lookup? token.literal = some declared ∧ commands = [declared.push] ∧
      labels = after := by
  rcases writes_bind.mp writes with ⟨declared, _, _, _, resolves, emits, rfl⟩
  rcases writes_resolve.mp resolves with ⟨rfl, known, rfl⟩
  rcases writes_emit.mp emits with ⟨rfl, rfl⟩
  exact ⟨declared, known, rfl, rfl⟩

theorem writes_element {token : Token} {index : Expression}
    (writes : Writes (Code.term scopes (.element token index)) labels commands () after) :
    ∃ array inner, scopes.lookup? token.literal = some array ∧
      Writes (Code.expression scopes index) labels inner () after ∧
      commands = [array.push] ++ inner ++
        [.arithmetic .add, .pop .pointer 1, .push .that 0] := by
  rcases writes_bind.mp writes with ⟨array, _, _, _, resolves, more, rfl⟩
  rcases writes_resolve.mp resolves with ⟨rfl, known, rfl⟩
  rcases writes_bind.mp more with ⟨⟨⟩, _, _, _, pushes, rest, rfl⟩
  rcases writes_emit.mp pushes with ⟨rfl, rfl⟩
  rcases writes_bind.mp rest with ⟨⟨⟩, _, inner, _, indexes, reads, rfl⟩
  rcases writes_emit.mp reads with ⟨rfl, rfl⟩
  refine ⟨array, inner, known, indexes, ?_⟩
  rw [List.nil_append, List.append_assoc]

theorem writes_unary {token : Token} {operator : UnaryOperator} {operand : Term}
    (writes : Writes (Code.term scopes (.unary token operator operand)) labels commands () after) :
    ∃ inner, Writes (Code.term scopes operand) labels inner () after ∧
      commands = inner ++ [Code.unary operator] := by
  rcases writes_bind.mp writes with ⟨⟨⟩, _, inner, _, operands, operates, rfl⟩
  rcases writes_emit.mp operates with ⟨rfl, rfl⟩
  exact ⟨inner, operands, rfl⟩

theorem writes_binary {left : Expression} {operator : BinaryOperator} {right : Term}
    (writes : Writes (Code.expression scopes (.binary left operator right)) labels commands ()
      after) :
    ∃ between first second, Writes (Code.expression scopes left) labels first () between ∧
      Writes (Code.term scopes right) between second () after ∧
      commands = first ++ second ++ [Code.binary operator] := by
  rcases writes_bind.mp writes with ⟨⟨⟩, between, first, _, lefts, more, rfl⟩
  rcases writes_bind.mp more with ⟨⟨⟩, _, second, _, rights, operates, rfl⟩
  rcases writes_emit.mp operates with ⟨rfl, rfl⟩
  refine ⟨between, first, second, lefts, rights, ?_⟩
  rw [List.append_assoc]

/-- What is pushed in front of a call's arguments, and the name of the routine that is called. -/
def receiverCode (scopes : Scopes) (qualifier : Option String) (routine : String) :
    List Command × String :=
  match qualifier with
  | none => ([.push .pointer 0], Code.qualified scopes.className routine)
  | some qualifier =>
    match scopes.lookup? qualifier with
    | some declared => ([declared.push], Code.qualified declared.type routine)
    | none => ([], Code.qualified qualifier routine)

theorem length_receiverCode_le (scopes : Scopes) (qualifier : Option String) (routine : String) :
    (receiverCode scopes qualifier routine).1.length ≤ 1 := by
  unfold receiverCode
  cases qualifier with
  | none => exact Nat.le_refl 1
  | some qualifier =>
      dsimp only
      cases scopes.lookup? qualifier with
      | none => exact Nat.zero_le 1
      | some declared => exact Nat.le_refl 1

theorem writes_receiver {qualifier : Option String} {routine target : String} {pushed : Nat}
    (writes : Writes (Code.receiver scopes qualifier routine) labels commands (target, pushed)
      after) :
    commands = (receiverCode scopes qualifier routine).1 ∧
      target = (receiverCode scopes qualifier routine).2 ∧
      pushed = (receiverCode scopes qualifier routine).1.length ∧ labels = after := by
  unfold Code.receiver at writes
  unfold receiverCode
  cases qualifier with
  | none =>
      rcases writes_bind.mp writes with ⟨⟨⟩, _, _, _, pushes, done, rfl⟩
      rcases writes_emit.mp pushes with ⟨rfl, rfl⟩
      rcases writes_pure.mp done with ⟨rfl, same, rfl⟩
      cases same
      exact ⟨rfl, rfl, rfl, rfl⟩
  | some name =>
      dsimp only at writes ⊢
      cases known : scopes.lookup? name with
      | none =>
          rw [known] at writes
          rcases writes_pure.mp writes with ⟨rfl, same, rfl⟩
          cases same
          exact ⟨rfl, rfl, rfl, rfl⟩
      | some declared =>
          rw [known] at writes
          rcases writes_bind.mp writes with ⟨⟨⟩, _, _, _, pushes, done, rfl⟩
          rcases writes_emit.mp pushes with ⟨rfl, rfl⟩
          rcases writes_pure.mp done with ⟨rfl, same, rfl⟩
          cases same
          exact ⟨rfl, rfl, rfl, rfl⟩

theorem writes_call {token : Token} {qualifier : Option String} {routine : String}
    {values : List Expression}
    (writes : Writes (Code.call scopes (.mk token qualifier routine values)) labels commands ()
      after) :
    ∃ inner, Writes (Code.arguments scopes values) labels inner () after ∧
      commands = (receiverCode scopes qualifier routine).1 ++ inner ++
        [.call (receiverCode scopes qualifier routine).2
          (UInt16.ofNat ((receiverCode scopes qualifier routine).1.length + values.length))] := by
  rcases writes_bind.mp writes with ⟨⟨target, pushed⟩, _, _, _, receives, more, rfl⟩
  rcases writes_receiver receives with ⟨rfl, rfl, rfl, rfl⟩
  rcases writes_bind.mp more with ⟨⟨⟩, _, inner, _, arguments, calls, rfl⟩
  rcases writes_emit.mp calls with ⟨rfl, rfl⟩
  refine ⟨inner, arguments, ?_⟩
  rw [List.append_assoc]

theorem writes_arguments {first : Expression} {rest : List Expression}
    (writes : Writes (Code.arguments scopes (first :: rest)) labels commands () after) :
    ∃ between front behind, Writes (Code.expression scopes first) labels front () between ∧
      Writes (Code.arguments scopes rest) between behind () after ∧
      commands = front ++ behind := by
  rcases writes_bind.mp writes with ⟨⟨⟩, between, front, behind, firsts, rests, rfl⟩
  exact ⟨between, front, behind, firsts, rests, rfl⟩

end Expressions

/-! Expressions define no labels. -/

mutual

theorem quiet_term {scopes : Scopes} {labels after : LabelCounts} {commands : List Command} :
    (tree : Term) -> Writes (Code.term scopes tree) labels commands () after ->
      labels = after ∧ definedLabels commands = []
  | .integer _ _, writes => by
      rcases writes_emit.mp writes with ⟨rfl, rfl⟩
      exact ⟨rfl, rfl⟩
  | .string token, writes => by
      rcases writes_emit.mp writes with ⟨rfl, rfl⟩
      refine ⟨rfl, ?_⟩
      change definedLabels (token.literal.toList.flatMap _) = []
      induction token.literal.toList with
      | nil => rfl
      | cons character rest inductionHypothesis =>
          rw [List.flatMap_cons, definedLabels_append, inductionHypothesis]
          rfl
  | .constant _ value, writes => by
      rcases writes_emit.mp writes with ⟨rfl, rfl⟩
      cases value <;> exact ⟨rfl, rfl⟩
  | .variable _, writes => by
      rcases writes_variable writes with ⟨declared, -, rfl, rfl⟩
      exact ⟨rfl, rfl⟩
  | .element _ index, writes => by
      rcases writes_element writes with ⟨array, inner, -, indexes, rfl⟩
      rcases quiet_expression index indexes with ⟨rfl, quiet⟩
      refine ⟨rfl, ?_⟩
      rw [definedLabels_append, definedLabels_append, quiet]
      rfl
  | .call target, writes => quiet_call target writes
  | .group _ inner, writes => quiet_expression inner writes
  | .unary _ operator operand, writes => by
      rcases writes_unary writes with ⟨inner, operands, rfl⟩
      rcases quiet_term operand operands with ⟨rfl, quiet⟩
      refine ⟨rfl, ?_⟩
      rw [definedLabels_append, quiet]
      cases operator <;> rfl

theorem quiet_expression {scopes : Scopes} {labels after : LabelCounts}
    {commands : List Command} :
    (tree : Expression) -> Writes (Code.expression scopes tree) labels commands () after ->
      labels = after ∧ definedLabels commands = []
  | .term first, writes => quiet_term first writes
  | .binary left operator right, writes => by
      rcases writes_binary writes with ⟨between, first, second, lefts, rights, rfl⟩
      rcases quiet_expression left lefts with ⟨rfl, quietLeft⟩
      rcases quiet_term right rights with ⟨rfl, quietRight⟩
      refine ⟨rfl, ?_⟩
      rw [definedLabels_append, definedLabels_append, quietLeft, quietRight]
      cases operator <;> rfl

theorem quiet_call {scopes : Scopes} {labels after : LabelCounts} {commands : List Command} :
    (tree : Call) -> Writes (Code.call scopes tree) labels commands () after ->
      labels = after ∧ definedLabels commands = []
  | .mk _ qualifier routine values, writes => by
      rcases writes_call writes with ⟨inner, pushes, rfl⟩
      rcases quiet_arguments values pushes with ⟨rfl, quiet⟩
      refine ⟨rfl, ?_⟩
      have receiver : definedLabels (receiverCode scopes qualifier routine).1 = [] := by
        unfold receiverCode
        split
        · rfl
        · split <;> rfl
      rw [definedLabels_append, definedLabels_append, receiver, quiet]
      rfl

theorem quiet_arguments {scopes : Scopes} {labels after : LabelCounts}
    {commands : List Command} :
    (trees : List Expression) -> Writes (Code.arguments scopes trees) labels commands () after ->
      labels = after ∧ definedLabels commands = []
  | [], writes => by
      rcases writes_pure.mp writes with ⟨rfl, -, rfl⟩
      exact ⟨rfl, rfl⟩
  | first :: rest, writes => by
      rcases writes_arguments writes with ⟨between, front, behind, firsts, rests, rfl⟩
      rcases quiet_expression first firsts with ⟨rfl, quietFirst⟩
      rcases quiet_arguments rest rests with ⟨rfl, quietRest⟩
      refine ⟨rfl, ?_⟩
      rw [definedLabels_append, quietFirst, quietRest]
      rfl

end

theorem fresh_expression {scopes : Scopes} {labels after : LabelCounts} {commands : List Command}
    {tree : Expression} (writes : Writes (Code.expression scopes tree) labels commands () after) :
    LabelsFresh labels after commands := by
  rcases quiet_expression tree writes with ⟨rfl, quiet⟩
  exact .none quiet

/-! ## The code of statements -/

section Statements

variable {scopes : Scopes} {labels after : LabelCounts} {commands : List Command}

theorem writes_assign {token : Token} {name : String} {value : Expression}
    (writes : Writes (Code.statement scopes (.assign token name none value)) labels commands ()
      after) :
    ∃ inner declared, Writes (Code.expression scopes value) labels inner () after ∧
      scopes.lookup? name = some declared ∧ commands = inner ++ [declared.pop] := by
  rcases writes_bind.mp writes with ⟨⟨⟩, _, inner, _, values, more, rfl⟩
  rcases writes_bind.mp more with ⟨declared, _, _, _, resolves, pops, rfl⟩
  rcases writes_resolve.mp resolves with ⟨rfl, known, rfl⟩
  rcases writes_emit.mp pops with ⟨rfl, rfl⟩
  exact ⟨inner, declared, values, known, rfl⟩

theorem writes_assignElement {token : Token} {name : String} {index value : Expression}
    (writes : Writes (Code.statement scopes (.assign token name (some index) value)) labels
      commands () after) :
    ∃ array between front behind, scopes.lookup? name = some array ∧
      Writes (Code.expression scopes index) labels front () between ∧
      Writes (Code.expression scopes value) between behind () after ∧
      commands = [array.push] ++ front ++ [.arithmetic .add] ++ behind ++
        [.pop .temp 0, .pop .pointer 1, .push .temp 0, .pop .that 0] := by
  rcases writes_bind.mp writes with ⟨array, _, _, _, resolves, pushing, rfl⟩
  rcases writes_resolve.mp resolves with ⟨rfl, known, rfl⟩
  rcases writes_bind.mp pushing with ⟨⟨⟩, _, _, _, pushes, indexing, rfl⟩
  rcases writes_emit.mp pushes with ⟨rfl, rfl⟩
  rcases writes_bind.mp indexing with ⟨⟨⟩, between, front, _, indexes, adding, rfl⟩
  rcases writes_bind.mp adding with ⟨⟨⟩, _, _, _, adds, valuing, rfl⟩
  rcases writes_emit.mp adds with ⟨rfl, rfl⟩
  rcases writes_bind.mp valuing with ⟨⟨⟩, _, behind, _, values, pops, rfl⟩
  rcases writes_emit.mp pops with ⟨rfl, rfl⟩
  refine ⟨array, _, front, behind, known, indexes, values, ?_⟩
  simp only [List.nil_append, List.append_assoc]

theorem writes_branch {token : Token} {condition : Expression} {consequence : List Statement}
    (writes : Writes (Code.statement scopes (.branch token condition consequence none)) labels
      commands () after) :
    ∃ between test inner, Writes (Code.expression scopes condition) labels test () between ∧
      Writes (Code.statements scopes consequence) (between.next .endIf).2 inner () after ∧
      commands = test ++ [.arithmetic .not, .ifGoto (between.next .endIf).1] ++ inner ++
        [.label (between.next .endIf).1] := by
  rcases writes_bind.mp writes with ⟨⟨⟩, between, test, _, tests, inverting, rfl⟩
  rcases writes_bind.mp inverting with ⟨⟨⟩, _, _, _, inverts, labelling, rfl⟩
  rcases writes_emit.mp inverts with ⟨rfl, rfl⟩
  rcases writes_bind.mp labelling with ⟨finish, _, _, _, makes, jumping, rfl⟩
  rcases writes_freshLabel.mp makes with ⟨rfl, rfl, rfl⟩
  rcases writes_bind.mp jumping with ⟨⟨⟩, _, _, _, jumps, going, rfl⟩
  rcases writes_emit.mp jumps with ⟨rfl, rfl⟩
  rcases writes_bind.mp going with ⟨⟨⟩, _, inner, _, inners, ends, rfl⟩
  rcases writes_emit.mp ends with ⟨rfl, rfl⟩
  refine ⟨_, test, inner, tests, inners, ?_⟩
  simp only [List.nil_append, List.append_assoc, List.cons_append]

theorem writes_alternative {token : Token} {condition : Expression}
    {consequence alternative : List Statement}
    (writes : Writes (Code.statement scopes
      (.branch token condition consequence (some alternative))) labels commands () after) :
    ∃ between finish otherwise middle test inner other,
      Writes (Code.expression scopes condition) labels test () between ∧
      finish = between.next .endIf ∧ otherwise = finish.2.next .elseIf ∧
      Writes (Code.statements scopes consequence) otherwise.2 inner () middle ∧
      Writes (Code.statements scopes alternative) middle other () after ∧
      commands = test ++ [.arithmetic .not, .ifGoto otherwise.1] ++ inner ++
        [.goto finish.1, .label otherwise.1] ++ other ++ [.label finish.1] := by
  rcases writes_bind.mp writes with ⟨⟨⟩, between, test, _, tests, inverting, rfl⟩
  rcases writes_bind.mp inverting with ⟨⟨⟩, _, _, _, inverts, labelling, rfl⟩
  rcases writes_emit.mp inverts with ⟨rfl, rfl⟩
  rcases writes_bind.mp labelling with ⟨finish, _, _, _, makes, labellingToo, rfl⟩
  rcases writes_freshLabel.mp makes with ⟨rfl, rfl, rfl⟩
  rcases writes_bind.mp labellingToo with ⟨otherwise, _, _, _, makesToo, jumping, rfl⟩
  rcases writes_freshLabel.mp makesToo with ⟨rfl, rfl, rfl⟩
  rcases writes_bind.mp jumping with ⟨⟨⟩, _, _, _, jumps, going, rfl⟩
  rcases writes_emit.mp jumps with ⟨rfl, rfl⟩
  rcases writes_bind.mp going with ⟨⟨⟩, middle, inner, _, inners, leaving, rfl⟩
  rcases writes_bind.mp leaving with ⟨⟨⟩, _, _, _, leaves, goingToo, rfl⟩
  rcases writes_emit.mp leaves with ⟨rfl, rfl⟩
  rcases writes_bind.mp goingToo with ⟨⟨⟩, _, other, _, others, ends, rfl⟩
  rcases writes_emit.mp ends with ⟨rfl, rfl⟩
  refine ⟨_, _, _, _, test, inner, other, tests, rfl, rfl, inners, others, ?_⟩
  simp only [List.nil_append, List.append_assoc, List.cons_append]

theorem writes_loop {token : Token} {condition : Expression} {body : List Statement}
    (writes : Writes (Code.statement scopes (.loop token condition body)) labels commands ()
      after) :
    ∃ start finish middle test inner, start = labels.next .beginWhile ∧
      finish = start.2.next .endWhile ∧
      Writes (Code.expression scopes condition) finish.2 test () middle ∧
      Writes (Code.statements scopes body) middle inner () after ∧
      commands = [.label start.1] ++ test ++ [.arithmetic .not, .ifGoto finish.1] ++ inner ++
        [.goto start.1, .label finish.1] := by
  rcases writes_bind.mp writes with ⟨start, _, _, _, makes, labelling, rfl⟩
  rcases writes_freshLabel.mp makes with ⟨rfl, rfl, rfl⟩
  rcases writes_bind.mp labelling with ⟨finish, _, _, _, makesToo, starting, rfl⟩
  rcases writes_freshLabel.mp makesToo with ⟨rfl, rfl, rfl⟩
  rcases writes_bind.mp starting with ⟨⟨⟩, _, _, _, starts, testing, rfl⟩
  rcases writes_emit.mp starts with ⟨rfl, rfl⟩
  rcases writes_bind.mp testing with ⟨⟨⟩, middle, test, _, tests, jumping, rfl⟩
  rcases writes_bind.mp jumping with ⟨⟨⟩, _, _, _, jumps, going, rfl⟩
  rcases writes_emit.mp jumps with ⟨rfl, rfl⟩
  rcases writes_bind.mp going with ⟨⟨⟩, _, inner, _, inners, ends, rfl⟩
  rcases writes_emit.mp ends with ⟨rfl, rfl⟩
  refine ⟨_, _, _, test, inner, rfl, rfl, tests, inners, ?_⟩
  simp only [List.nil_append, List.append_assoc, List.cons_append]

theorem writes_perform {token : Token} {target : Call}
    (writes : Writes (Code.statement scopes (.perform token target)) labels commands () after) :
    ∃ inner, Writes (Code.call scopes target) labels inner () after ∧
      commands = inner ++ [.pop .temp 0] := by
  rcases writes_bind.mp writes with ⟨⟨⟩, _, inner, _, calls, pops, rfl⟩
  rcases writes_emit.mp pops with ⟨rfl, rfl⟩
  exact ⟨inner, calls, rfl⟩

theorem writes_return {token : Token} {value : Expression}
    (writes : Writes (Code.statement scopes (.«return» token (some value))) labels commands ()
      after) :
    ∃ inner, Writes (Code.expression scopes value) labels inner () after ∧
      commands = inner ++ [.«return»] := by
  rcases writes_bind.mp writes with ⟨⟨⟩, _, inner, _, values, returns, rfl⟩
  rcases writes_emit.mp returns with ⟨rfl, rfl⟩
  exact ⟨inner, values, rfl⟩

theorem writes_statements {first : Statement} {rest : List Statement}
    (writes : Writes (Code.statements scopes (first :: rest)) labels commands () after) :
    ∃ between front behind, Writes (Code.statement scopes first) labels front () between ∧
      Writes (Code.statements scopes rest) between behind () after ∧
      commands = front ++ behind := by
  rcases writes_bind.mp writes with ⟨⟨⟩, between, front, behind, firsts, rests, rfl⟩
  exact ⟨between, front, behind, firsts, rests, rfl⟩

end Statements

/-! The labels that statements define are new and all different. -/

mutual

theorem fresh_statement {scopes : Scopes} {labels after : LabelCounts} {commands : List Command} :
    (tree : Statement) -> Writes (Code.statement scopes tree) labels commands () after ->
      LabelsFresh labels after commands
  | .assign _ _ none value, writes => by
      rcases writes_assign writes with ⟨inner, declared, values, -, rfl⟩
      exact (fresh_expression values).append (.none rfl)
  | .assign _ _ (some index) value, writes => by
      rcases writes_assignElement writes with ⟨array, _, front, behind, -, indexes, values, rfl⟩
      exact ((((LabelsFresh.none rfl).append (fresh_expression indexes)).append (.none rfl)).append
        (fresh_expression values)).append (.none rfl)
  | .branch _ condition consequence none, writes => by
      rcases writes_branch writes with ⟨between, test, inner, tests, inners, rfl⟩
      have body := (fresh_statements consequence inners).behind (made_next between .endIf)
        (next_eq between .endIf).2.2
      rw [List.append_assoc]
      exact ((fresh_expression tests).append (.none rfl)).append body
  | .branch _ condition consequence (some alternative), writes => by
      rcases writes_alternative writes with
        ⟨between, _, _, middle, test, inner, other, tests, rfl, rfl, inners, others, rfl⟩
      have leave : LabelsFresh middle middle [.goto (between.next .endIf).1] := .none rfl
      have jump : LabelsFresh between between
          [.arithmetic .not, .ifGoto ((between.next .endIf).2.next .elseIf).1] := .none rfl
      have first := ((fresh_statements consequence inners).append leave).behind
        (made_next (between.next .endIf).2 .elseIf) (next_eq (between.next .endIf).2 .elseIf).2.2
      have both := (first.append (fresh_statements alternative others)).behind
        (made_next between .endIf) (next_eq between .endIf).2.2
      have whole := ((fresh_expression tests).append jump).append both
      simpa only [List.append_assoc, List.cons_append, List.nil_append] using whole
  | .loop _ condition body, writes => by
      rcases writes_loop writes with
        ⟨_, _, middle, test, inner, rfl, rfl, tests, inners, rfl⟩
      have repeats : LabelsFresh after after [.goto (labels.next .beginWhile).1] := .none rfl
      have jump : LabelsFresh middle middle
          [.arithmetic .not, .ifGoto ((labels.next .beginWhile).2.next .endWhile).1] := .none rfl
      have body := ((((fresh_expression tests).append jump).append
        (fresh_statements body inners)).append repeats).behind
        (made_next (labels.next .beginWhile).2 .endWhile)
        (next_eq (labels.next .beginWhile).2 .endWhile).2.2
      have whole := body.inFront (made_next labels .beginWhile) (next_eq labels .beginWhile).2.2
      simpa only [List.append_assoc, List.cons_append, List.nil_append] using whole
  | .perform _ target, writes => by
      rcases writes_perform writes with ⟨inner, calls, rfl⟩
      rcases quiet_call target calls with ⟨rfl, quiet⟩
      exact (LabelsFresh.none quiet).append (.none rfl)
  | .«return» _ none, writes => by
      rcases writes_emit.mp writes with ⟨rfl, rfl⟩
      exact .none rfl
  | .«return» _ (some value), writes => by
      rcases writes_return writes with ⟨inner, values, rfl⟩
      exact (fresh_expression values).append (.none rfl)

theorem fresh_statements {scopes : Scopes} {labels after : LabelCounts}
    {commands : List Command} :
    (trees : List Statement) -> Writes (Code.statements scopes trees) labels commands () after ->
      LabelsFresh labels after commands
  | [], writes => by
      rcases writes_pure.mp writes with ⟨rfl, -, rfl⟩
      exact .none rfl
  | first :: rest, writes => by
      rcases writes_statements writes with ⟨between, front, behind, firsts, rests, rfl⟩
      exact (fresh_statement first firsts).append (fresh_statements rest rests)

end

end Jack
end HackToolchain
