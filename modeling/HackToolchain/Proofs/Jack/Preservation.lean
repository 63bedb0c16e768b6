import HackToolchain.Proofs.Jack.Emission
import HackToolchain.Proofs.Jack.Meaning

namespace HackToolchain
namespace Jack

/-!
# Code keeps the meaning of trees

The code of an expression pushes the value of the expression, and the code of statements leaves the
operand stack as it is.  Both do so on top of any stack, from any variables, and whatever the base of
the current array and the temporary segment hold: the code sets these itself wherever it goes by them.

Code is written in scopes and understood in a setting.  All that is asked of the scopes is that names
stand for the same in both.

Expressions define no labels and do not jump, so their code runs through.  Statements jump to labels
of their own, which a routine defines once.
-/

open Vm

/-! ## Argument lists -/

mutual

/-- No call in a term has more arguments than a word can count together with an object. -/
def Term.Fits : Term -> Prop
  | .element _ index => index.Fits
  | .call target => target.Fits
  | .group _ inner => inner.Fits
  | .unary _ _ operand => operand.Fits
  | .integer _ _ => True
  | .string _ => True
  | .constant _ _ => True
  | .variable _ => True

/-- No call in an expression has too many arguments. -/
def Expression.Fits : Expression -> Prop
  | .term first => first.Fits
  | .binary left _ right => left.Fits ∧ right.Fits

/-- A call does not have too many arguments, and neither has any call in them. -/
def Call.Fits : Call -> Prop
  | .mk _ _ _ values => values.length ≤ 32767 ∧ argumentsFit values

/-- No call in expressions has too many arguments. -/
def argumentsFit : List Expression -> Prop
  | [] => True
  | first :: rest => first.Fits ∧ argumentsFit rest

end

mutual

/-- No call in a statement has too many arguments. -/
def Statement.Fits : Statement -> Prop
  | .assign _ _ none value => value.Fits
  | .assign _ _ (some index) value => index.Fits ∧ value.Fits
  | .branch _ condition consequence none => condition.Fits ∧ statementsFit consequence
  | .branch _ condition consequence (some alternative) =>
    condition.Fits ∧ statementsFit consequence ∧ statementsFit alternative
  | .loop _ condition body => condition.Fits ∧ statementsFit body
  | .perform _ target => target.Fits
  | .«return» _ none => True
  | .«return» _ (some value) => value.Fits

/-- No call in statements has too many arguments. -/
def statementsFit : List Statement -> Prop
  | [] => True
  | first :: rest => first.Fits ∧ statementsFit rest

end

/-! ## Scopes -/

/-- Code that is written in scopes can be understood in a setting: names stand for the same, and the
routine of the code is one of the setting's class. -/
structure InSetting (setting : Setting) (scopes : Scopes) (routine : Routine) : Prop where
  file : routine.file = setting.className
  className : scopes.className = setting.className
  lookup? : ∀ name, scopes.lookup? name = setting.lookup? name

/-- Scopes that hold the declarations of a setting are scopes of that setting. -/
theorem InSetting.of_hold {setting : Setting} {scopes : Scopes} {routine : Routine}
    (file : routine.file = setting.className) (className : scopes.className = setting.className)
    (hold : scopes.Hold setting.surroundings) : InSetting setting scopes routine :=
  ⟨file, className, hold.lookup?⟩

/-! ## Single commands -/

section Commands

variable {routine : Routine} {first last : Nat} {commands : List Command} {stack : List UInt16}
  {store : Store}

theorem reaches_push {declared : Variable}
    (stretch : routine.Stretch first (declared.push :: commands) last) :
    routine.Reaches first (first + 1) ⟨first, stack, store⟩
      ⟨first + 1, declared.read routine.file store :: stack, store⟩ := by
  apply Routine.Reaches.command stretch
  intro that temp
  rcases declared with ⟨type, kind, index⟩
  refine ⟨that, temp, ?_⟩
  cases kind <;> rfl

theorem reaches_pop {declared : Variable} {value : UInt16}
    (stretch : routine.Stretch first (declared.pop :: commands) last) :
    routine.Reaches first (first + 1) ⟨first, value :: stack, store⟩
      ⟨first + 1, stack, declared.write routine.file store value⟩ := by
  apply Routine.Reaches.command stretch
  intro that temp
  rcases declared with ⟨type, kind, index⟩
  refine ⟨that, temp, ?_⟩
  cases kind <;> rfl

/-- A call takes the words that were pushed for it, the first one deepest. -/
theorem reaches_call {name : String} {count : UInt16} (stack : List UInt16) (store : Store)
    (words : List UInt16)
    (stretch : routine.Stretch first (.call name count :: commands) last)
    (counted : count.toNat = words.length) :
    routine.Reaches first (first + 1) ⟨first, words.reverse ++ stack, store⟩
      ⟨first + 1, (routine.calls.answer name words store.shared).1 :: stack,
        (Meaning.afterCall store (routine.calls.answer name words store.shared)).2⟩ := by
  apply Routine.Reaches.command stretch
  intro that temp
  have enough : count.toNat ≤ (words.reverse ++ stack).length := by
    rw [counted, List.length_append, List.length_reverse]
    exact Nat.le_add_right _ _
  have length : words.length = words.reverse.length := List.length_reverse.symm
  refine ⟨routine.calls.that name words store.shared that,
    routine.calls.temp name words store.shared temp, ?_⟩
  rw [Routine.execute?, if_pos enough, Activation.call, counted, length, List.take_left,
    List.drop_left, List.reverse_reverse]
  rfl

theorem reaches_binary {operator : BinaryOperator} {left right : UInt16}
    (stretch : routine.Stretch first (Code.binary operator :: commands) last) :
    routine.Reaches first (first + 1) ⟨first, right :: left :: stack, store⟩
      ⟨first + 1, (Meaning.binary routine.calls left right store.shared operator).1 :: stack,
        (Meaning.afterCall store
          (Meaning.binary routine.calls left right store.shared operator)).2⟩ := by
  have arithmetic {operation : Operation} {value : UInt16}
      (same : Code.binary operator = .arithmetic operation)
      (operated : Activation.operate? operation (right :: left :: stack) = some (value :: stack)) :
      routine.Reaches first (first + 1) ⟨first, right :: left :: stack, store⟩
        ⟨first + 1, value :: stack, store⟩ := by
    rw [same] at stretch
    apply Routine.Reaches.command stretch
    intro that temp
    refine ⟨that, temp, ?_⟩
    rw [Routine.execute?, operated]
    rfl
  cases operator with
  | mul => exact reaches_call stack store [left, right] stretch rfl
  | div => exact reaches_call stack store [left, right] stretch rfl
  | _ => exact arithmetic rfl rfl

theorem reaches_unary {operator : UnaryOperator} {word : UInt16}
    (stretch : routine.Stretch first (Code.unary operator :: commands) last) :
    routine.Reaches first (first + 1) ⟨first, word :: stack, store⟩
      ⟨first + 1, Meaning.unary word operator :: stack, store⟩ := by
  apply Routine.Reaches.command stretch
  intro that temp
  refine ⟨that, temp, ?_⟩
  cases operator <;> rfl

end Commands

/-! ## Expressions -/

/-- A stretch of code puts words on top of any stack, the last one uppermost. -/
def Pushes (routine : Routine) (first last : Nat) (store : Store) (words : List UInt16)
    (final : Store) : Prop :=
  ∀ stack, routine.Reaches first last ⟨first, stack, store⟩ ⟨last, words.reverse ++ stack, final⟩

namespace Pushes

variable {routine : Routine} {first between last : Nat} {store middle final : Store}
  {words more : List UInt16}

theorem none (routine : Routine) (first : Nat) (store : Store) :
    Pushes routine first first store [] store :=
  fun _ => .refl _

/-- A stretch of code that goes on with what was pushed. -/
theorem replace (pushes : Pushes routine first between store words middle)
    (behind : ∀ stack, routine.Reaches between last ⟨between, words.reverse ++ stack, middle⟩
      ⟨last, more.reverse ++ stack, final⟩)
    (below : first ≤ between) (above : between ≤ last) :
    Pushes routine first last store more final :=
  fun stack => (pushes stack).append (behind stack) below above

theorem append (pushes : Pushes routine first between store words middle)
    (behind : Pushes routine between last middle more final) (below : first ≤ between)
    (above : between ≤ last) : Pushes routine first last store (words ++ more) final := by
  intro stack
  rw [List.reverse_append, List.append_assoc]
  exact (pushes stack).append (behind (words.reverse ++ stack)) below above

end Pushes

section Pieces

variable {routine : Routine} {first last : Nat} {commands : List Command} {store : Store}

theorem pushes_variable {declared : Variable}
    (stretch : routine.Stretch first [declared.push] last) :
    Pushes routine first last store [declared.read routine.file store] store := by
  intro stack
  cases stretch.ends
  exact reaches_push stretch

theorem pushes_word {index : UInt16} (stretch : routine.Stretch first [.push .constant index] last) :
    Pushes routine first last store [index] store := by
  intro stack
  cases stretch.ends
  exact .command stretch fun that temp => ⟨that, temp, rfl⟩

theorem pushes_object (stretch : routine.Stretch first [.push .pointer 0] last) :
    Pushes routine first last store [store.object] store := by
  intro stack
  cases stretch.ends
  exact .command stretch fun that temp => ⟨that, temp, rfl⟩

theorem pushes_constant {value : Constant}
    (stretch : routine.Stretch first (Code.constant value) last) :
    Pushes routine first last store [Meaning.constant store.object value] store := by
  cases value with
  | false => exact pushes_word stretch
  | null => exact pushes_word stretch
  | this => exact pushes_object stretch
  | true =>
      have split : routine.Stretch first ([.push .constant 1] ++ [Code.unary .neg]) last := stretch
      rcases split.append with ⟨between, front, behind⟩
      cases behind.ends
      exact (pushes_word front).replace (fun stack => reaches_unary behind) front.le behind.le

/-- The characters are appended one by one to the object on the stack. -/
theorem reaches_characters (store : Store) (characters : List Char) (stack : List UInt16)
    (first : Nat) (made : UInt16 × Shared)
    (stretch : routine.Stretch first (characters.flatMap fun character =>
      [.push .constant (UInt16.ofNat character.toNat), .call "String.appendChar" 2]) last) :
    routine.Reaches first last ⟨first, made.1 :: stack, (Meaning.afterCall store made).2⟩
      ⟨last, (Meaning.characters routine.calls characters made).1 :: stack,
        (Meaning.afterCall store (Meaning.characters routine.calls characters made)).2⟩ := by
  induction characters generalizing first made with
  | nil =>
      cases stretch.nil
      exact .refl _
  | cons character rest inductionHypothesis =>
      let word := UInt16.ofNat character.toNat
      have push : routine.Reaches first (first + 1) _
          ⟨first + 1, word :: made.1 :: stack, (Meaning.afterCall store made).2⟩ :=
        .command stretch fun that temp => ⟨that, temp, rfl⟩
      have call := reaches_call stack (Meaning.afterCall store made).2 [made.1, word]
        stretch.tail rfl
      have further := inductionHypothesis (first + 2)
        (routine.calls.answer "String.appendChar" [made.1, word] made.2) stretch.tail.tail
      exact .cons stretch push (.cons stretch.tail call further)

theorem pushes_string {text : String} (stretch : routine.Stretch first (Code.string text) last) :
    Pushes routine first last store [(Meaning.string routine.calls text store.shared).1]
      (Meaning.afterCall store (Meaning.string routine.calls text store.shared)).2 := by
  intro stack
  let length := UInt16.ofNat text.length
  have push : routine.Reaches first (first + 1) ⟨first, stack, store⟩
      ⟨first + 1, length :: stack, store⟩ :=
    .command stretch fun that temp => ⟨that, temp, rfl⟩
  have call := reaches_call stack store [length] stretch.tail rfl
  have fill := reaches_characters store text.toList stack (first + 2)
    (routine.calls.answer "String.new" [length] store.shared) stretch.tail.tail
  exact .cons stretch push (.cons stretch.tail call fill)

theorem pushes_receiver {setting : Setting} {scopes : Scopes} {qualifier : Option String} {name : String}
    (settled : InSetting setting scopes routine)
    (stretch : routine.Stretch first (receiverCode scopes qualifier name).1 last) :
    Pushes routine first last store (Meaning.receiver setting qualifier name store).2 store := by
  unfold receiverCode at stretch
  unfold Meaning.receiver
  cases qualifier with
  | none => exact pushes_object stretch
  | some qualifier =>
      dsimp only at stretch ⊢
      rw [← settled.lookup?]
      cases known : scopes.lookup? qualifier with
      | none =>
          rw [known] at stretch
          cases stretch.nil
          exact .none routine first store
      | some declared =>
          rw [known] at stretch
          rw [← settled.file]
          exact pushes_variable stretch

/-- A word is pushed for each receiver, and the routine is the one that is meant. -/
theorem receiver_meant {setting : Setting} {scopes : Scopes}
    (settled : InSetting setting scopes routine) (qualifier : Option String) (name : String)
    (store : Store) :
    (receiverCode scopes qualifier name).2 = (Meaning.receiver setting qualifier name store).1 ∧
      (receiverCode scopes qualifier name).1.length =
        (Meaning.receiver setting qualifier name store).2.length := by
  unfold receiverCode Meaning.receiver
  cases qualifier with
  | none => exact ⟨by rw [settled.className]; rfl, rfl⟩
  | some qualifier =>
      dsimp only
      rw [← settled.lookup?]
      cases scopes.lookup? qualifier with
      | none => exact ⟨rfl, rfl⟩
      | some declared => exact ⟨rfl, rfl⟩

/-- The address on the stack gives way to what is there. -/
theorem reaches_element {base offset : UInt16} {stack : List UInt16}
    (stretch : routine.Stretch first [.arithmetic .add, .pop .pointer 1, .push .that 0] last) :
    routine.Reaches first last ⟨first, offset :: base :: stack, store⟩
      ⟨last, store.shared.heap (base + offset) :: stack, store⟩ := by
  intro that temp
  cases stretch.ends
  refine ⟨3, base + offset, temp, ?_⟩
  have read : routine.Steps (first + 2) (first + 3) 1
      ⟨first + 2, stack, store, base + offset, temp⟩
      ⟨first + 3, store.shared.heap (base + offset) :: stack, store, base + offset, temp⟩ := by
    refine .cons ⟨first + 2, _, store, _, temp⟩ stretch.tail.tail ?_ (.refl _)
    rw [Routine.execute?, Activation.read?, UInt16.add_zero]
    rfl
  exact .cons ⟨first, _, store, _, _⟩ stretch rfl
    (.cons ⟨first + 1, _, store, _, _⟩ stretch.tail rfl read)

end Pieces

mutual

/-- The code of a term pushes the term's value. -/
theorem term_pushes {routine : Routine} {setting : Setting} {scopes : Scopes}
    {labels after : LabelCounts} {first last : Nat} {commands : List Command}
    (settled : InSetting setting scopes routine) :
    (tree : Term) -> tree.Fits -> Writes (Code.term scopes tree) labels commands () after ->
      routine.Stretch first commands last -> (store : Store) ->
      ∃ value final, Meaning.term setting routine.calls tree store = some (value, final) ∧
        Pushes routine first last store [value] final
  | .integer _ value, _, writes, stretch, store => by
      rcases writes_emit.mp writes with ⟨rfl, rfl⟩
      exact ⟨value, store, rfl, pushes_word stretch⟩
  | .string token, _, writes, stretch, store => by
      rcases writes_emit.mp writes with ⟨rfl, rfl⟩
      exact ⟨_, _, rfl, pushes_string stretch⟩
  | .constant _ value, _, writes, stretch, store => by
      rcases writes_emit.mp writes with ⟨rfl, rfl⟩
      exact ⟨_, store, rfl, pushes_constant stretch⟩
  | .variable _, _, writes, stretch, store => by
      rcases writes_variable writes with ⟨declared, known, rfl, rfl⟩
      refine ⟨declared.read routine.file store, store, ?_, pushes_variable stretch⟩
      rw [Meaning.term, ← settled.lookup?, known, settled.file]
      rfl
  | .element _ index, fits, writes, stretch, store => by
      rcases writes_element writes with ⟨array, inner, known, indexes, rfl⟩
      rcases stretch.append with ⟨_, front, behind⟩
      rcases front.append with ⟨_, base, offsets⟩
      rcases expression_pushes settled index fits indexes offsets store with
        ⟨offset, final, evaluated, pushes⟩
      have pushed := (pushes_variable base).append pushes base.le offsets.le
      refine ⟨final.shared.heap (array.read routine.file store + offset), final, ?_,
        pushed.replace (fun stack => reaches_element behind) front.le behind.le⟩
      rw [Meaning.term, ← settled.lookup?, known, settled.file]
      simp only [Option.bind_eq_bind, Option.bind_some, evaluated]
      rfl
  | .call target, fits, writes, stretch, store => call_pushes settled target fits writes stretch store
  | .group _ inner, fits, writes, stretch, store =>
      expression_pushes settled inner fits writes stretch store
  | .unary _ operator operand, fits, writes, stretch, store => by
      rcases writes_unary writes with ⟨inner, operands, rfl⟩
      rcases stretch.append with ⟨_, front, behind⟩
      rcases term_pushes settled operand fits operands front store with
        ⟨word, final, evaluated, pushes⟩
      refine ⟨Meaning.unary word operator, final, ?_, ?_⟩
      · rw [Meaning.term, evaluated]
        rfl
      · cases behind.ends
        exact pushes.replace (fun stack => reaches_unary behind) front.le behind.le

/-- The code of an expression pushes the expression's value. -/
theorem expression_pushes {routine : Routine} {setting : Setting} {scopes : Scopes}
    {labels after : LabelCounts} {first last : Nat} {commands : List Command}
    (settled : InSetting setting scopes routine) :
    (tree : Expression) -> tree.Fits ->
      Writes (Code.expression scopes tree) labels commands () after ->
      routine.Stretch first commands last -> (store : Store) ->
      ∃ value final, Meaning.expression setting routine.calls tree store = some (value, final) ∧
        Pushes routine first last store [value] final
  | .term inner, fits, writes, stretch, store => term_pushes settled inner fits writes stretch store
  | .binary left operator right, fits, writes, stretch, store => by
      rcases writes_binary writes with ⟨between, front, behind, lefts, rights, rfl⟩
      rcases stretch.append with ⟨_, operands, operates⟩
      rcases operands.append with ⟨_, leftCode, rightCode⟩
      rcases expression_pushes settled left fits.1 lefts leftCode store with
        ⟨leftWord, middle, leftKnown, leftPushes⟩
      rcases term_pushes settled right fits.2 rights rightCode middle with
        ⟨rightWord, final, rightKnown, rightPushes⟩
      have pushed := leftPushes.append rightPushes leftCode.le rightCode.le
      cases operates.ends
      refine ⟨_, _, ?_, pushed.replace (fun stack => reaches_binary operates) operands.le
        operates.le⟩
      rw [Meaning.expression, leftKnown]
      simp only [Option.bind_eq_bind, Option.bind_some, rightKnown]
      rfl

/-- The code of a call pushes the call's result. -/
theorem call_pushes {routine : Routine} {setting : Setting} {scopes : Scopes}
    {labels after : LabelCounts} {first last : Nat} {commands : List Command}
    (settled : InSetting setting scopes routine) :
    (tree : Call) -> tree.Fits -> Writes (Code.call scopes tree) labels commands () after ->
      routine.Stretch first commands last -> (store : Store) ->
      ∃ value final, Meaning.call setting routine.calls tree store = some (value, final) ∧
        Pushes routine first last store [value] final
  | .mk _ qualifier name values, fits, writes, stretch, store => by
      rcases writes_call writes with ⟨inner, arguments, rfl⟩
      rcases stretch.append with ⟨_, front, calling⟩
      rcases front.append with ⟨_, receiving, argumentCode⟩
      rcases arguments_pushes settled values fits.2 arguments argumentCode store with
        ⟨words, final, evaluated, many, pushes⟩
      rcases receiver_meant settled qualifier name store with ⟨target, lengths⟩
      have few := length_receiverCode_le scopes qualifier name
      have counted : (UInt16.ofNat ((receiverCode scopes qualifier name).1.length +
          values.length)).toNat =
          ((Meaning.receiver setting qualifier name store).2 ++ words).length := by
        have bound := fits.1
        rw [UInt16.toNat_ofNat', List.length_append, many]
        omega
      have pushed := (pushes_receiver settled receiving).append pushes receiving.le argumentCode.le
      cases calling.ends
      refine ⟨_, _, ?_, pushed.replace (fun stack => reaches_call stack final _ calling counted)
        front.le calling.le⟩
      rw [Meaning.call]
      simp only [Option.bind_eq_bind, evaluated, target]
      rfl

/-- The code of a call's arguments pushes their values. -/
theorem arguments_pushes {routine : Routine} {setting : Setting} {scopes : Scopes}
    {labels after : LabelCounts} {first last : Nat} {commands : List Command}
    (settled : InSetting setting scopes routine) :
    (trees : List Expression) -> argumentsFit trees ->
      Writes (Code.arguments scopes trees) labels commands () after ->
      routine.Stretch first commands last -> (store : Store) ->
      ∃ values final, Meaning.arguments setting routine.calls trees store = some (values, final) ∧
        values.length = trees.length ∧ Pushes routine first last store values final
  | [], _, writes, stretch, store => by
      rcases writes_pure.mp writes with ⟨rfl, -, rfl⟩
      cases stretch.nil
      exact ⟨[], store, rfl, rfl, .none routine first store⟩
  | tree :: rest, fits, writes, stretch, store => by
      rcases writes_arguments writes with ⟨between, front, behind, firsts, rests, rfl⟩
      rcases stretch.append with ⟨_, firstCode, restCode⟩
      rcases expression_pushes settled tree fits.1 firsts firstCode store with
        ⟨word, middle, wordKnown, wordPushes⟩
      rcases arguments_pushes settled rest fits.2 rests restCode middle with
        ⟨words, final, wordsKnown, many, wordsPush⟩
      refine ⟨word :: words, final, ?_, congrArg (· + 1) many,
        wordPushes.append wordsPush firstCode.le restCode.le⟩
      rw [Meaning.arguments, wordKnown]
      simp only [Option.bind_eq_bind, Option.bind_some, wordsKnown]
      rfl

end

/-! ## Jumps -/

section Jumps

variable {routine : Routine} {first last : Nat} {commands : List Command} {label : String}
  {target : Nat} {stack : List UInt16} {store : Store}

theorem reaches_goto (unique : (definedLabels routine.code).Nodup)
    (stretch : routine.Stretch first (.goto label :: commands) last)
    (stands : routine.code[target]? = some (.label label)) (stack : List UInt16) (store : Store) :
    routine.Reaches first (first + 1) ⟨first, stack, store⟩ ⟨target, stack, store⟩ := by
  apply Routine.Reaches.command stretch
  intro that temp
  refine ⟨that, temp, ?_⟩
  rw [Routine.execute?, Routine.jump?, Routine.labelPosition?_eq unique stands]
  rfl

theorem reaches_label (stretch : routine.Stretch first (.label label :: commands) last)
    (stack : List UInt16) (store : Store) :
    routine.Reaches first (first + 1) ⟨first, stack, store⟩ ⟨first + 1, stack, store⟩ :=
  .command stretch fun that temp => ⟨that, temp, rfl⟩

/-- The inverted condition lets a true word go on and all others jump. -/
theorem reaches_guard (unique : (definedLabels routine.code).Nodup)
    (stretch : routine.Stretch first [.arithmetic .not, .ifGoto label] last)
    (stands : routine.code[target]? = some (.label label)) (word : UInt16) :
    routine.Reaches first last ⟨first, word :: stack, store⟩
      ⟨if Meaning.isTrue word then last else target, stack, store⟩ := by
  cases stretch.ends
  have inverts : routine.Reaches first (first + 1) ⟨first, word :: stack, store⟩
      ⟨first + 1, ~~~word :: stack, store⟩ :=
    .command stretch fun that temp => ⟨that, temp, rfl⟩
  refine .cons stretch inverts (.command stretch.tail ?_)
  intro that temp
  refine ⟨that, temp, ?_⟩
  change (if ~~~word = 0 then _ else _) = _
  by_cases holds : ~~~word = 0
  · have true : Meaning.isTrue word = true := beq_iff_eq.mpr holds
    rw [if_pos holds, if_pos true]
    rfl
  · have false : ¬ Meaning.isTrue word = true := fun true => holds (beq_iff_eq.mp true)
    rw [if_neg holds, if_neg false, Routine.jump?,
      Routine.labelPosition?_eq unique stands]
    rfl

end Jumps

/-! ## Statements -/

/-- Steps inside a range come to an outcome.  Finished code is at a position behind which nothing is
left to do, with a stack as before.  Where a loop uses up its rounds, there are at least as many
steps. -/
def ComesTo (routine : Routine) (first last rounds : Nat) (start : Place) (finish : Nat)
    (stack : List UInt16) : Meaning.Outcome -> Prop
  | .finished store => routine.Reaches first last start ⟨finish, stack, store⟩
  | .returned value store => routine.Returns first last start value store.shared
  | .unfinished => routine.Lasts first last start rounds

namespace ComesTo

variable {routine : Routine} {first last rounds finish : Nat} {start middle : Place}
  {stack : List UInt16} {outcome : Meaning.Outcome}

theorem widen {lower upper : Nat}
    (comes : ComesTo routine first last rounds start finish stack outcome) (below : lower ≤ first)
    (above : last ≤ upper) : ComesTo routine lower upper rounds start finish stack outcome := by
  cases outcome with
  | finished store => exact Routine.Reaches.widen comes below above
  | returned value store =>
      intro that temp
      rcases comes that temp with ⟨count, state, steps, lowest, highest, returns⟩
      exact ⟨count, state, steps.widen below above, below.trans lowest,
        Nat.lt_of_lt_of_le highest above, returns⟩
  | unfinished =>
      intro that temp
      rcases comes that temp with ⟨count, state, many, steps⟩
      exact ⟨count, state, many, steps.widen below above⟩

/-- Code that is reached comes to what the run comes to from there. -/
theorem after (reaches : routine.Reaches first last start middle)
    (comes : ComesTo routine first last rounds middle finish stack outcome) :
    ComesTo routine first last rounds start finish stack outcome := by
  cases outcome with
  | finished store => exact Routine.Reaches.trans reaches comes
  | returned value store =>
      intro that temp
      rcases reaches that temp with ⟨count, that', temp', toMiddle⟩
      rcases comes that' temp' with ⟨more, state, steps, returns⟩
      exact ⟨count + more, state, toMiddle.trans steps, returns⟩
  | unfinished =>
      intro that temp
      rcases reaches that temp with ⟨count, that', temp', toMiddle⟩
      rcases comes that' temp' with ⟨more, state, many, steps⟩
      exact ⟨count + more, state, many.trans (Nat.le_add_left more count), toMiddle.trans steps⟩

/-- Finished code goes on to where the code around it is finished. -/
theorem onward {behind : Nat}
    (comes : ComesTo routine first last rounds start finish stack outcome)
    (leaves : ∀ store, routine.Reaches first last ⟨finish, stack, store⟩ ⟨behind, stack, store⟩) :
    ComesTo routine first last rounds start behind stack outcome := by
  cases outcome with
  | finished store => exact Routine.Reaches.trans comes (leaves store)
  | returned value store => exact comes
  | unfinished => exact comes

theorem fewer {less : Nat}
    (comes : ComesTo routine first last rounds start finish stack outcome) (fewer : less ≤ rounds) :
    ComesTo routine first last less start finish stack outcome := by
  cases outcome with
  | finished store => exact comes
  | returned value store => exact comes
  | unfinished =>
      intro that temp
      rcases comes that temp with ⟨count, state, many, steps⟩
      exact ⟨count, state, fewer.trans many, steps⟩

/-- A label in front of the code makes a step more. -/
theorem behindLabel {upper : Nat} {label : String} {commands : List Command} {below : List UInt16}
    {store : Store} (stretch : routine.Stretch first (.label label :: commands) upper)
    (inside : first < last)
    (comes : ComesTo routine first last rounds ⟨first + 1, below, store⟩ finish stack outcome) :
    ComesTo routine first last (rounds + 1) ⟨first, below, store⟩ finish stack outcome := by
  have passes (that : UInt16) (temp : UInt16 -> UInt16) :
      routine.step? ⟨first, below, store, that, temp⟩ =
        some (.goes ⟨first + 1, below, store, that, temp⟩) := stretch.step?.trans rfl
  cases outcome with
  | finished final =>
      intro that temp
      rcases comes that temp with ⟨count, that', temp', steps⟩
      exact ⟨count + 1, that', temp', .step (Nat.le_refl _) inside (passes that temp) steps⟩
  | returned value final =>
      intro that temp
      rcases comes that temp with ⟨count, state, steps, returns⟩
      exact ⟨count + 1, state, .step (Nat.le_refl _) inside (passes that temp) steps, returns⟩
  | unfinished =>
      intro that temp
      rcases comes that temp with ⟨count, state, many, steps⟩
      exact ⟨count + 1, state, Nat.succ_le_succ many,
        .step (Nat.le_refl _) inside (passes that temp) steps⟩

end ComesTo

section Constructs

variable {routine : Routine} {scopes : Scopes} {labels after : LabelCounts} {first last : Nat}
  {commands : List Command} {stack : List UInt16} {store : Store}

/-- The address waits below the value, which waits in the temporary segment for the address. -/
theorem reaches_setElement {address value : UInt16}
    (stretch : routine.Stretch first
      [.pop .temp 0, .pop .pointer 1, .push .temp 0, .pop .that 0] last) :
    routine.Reaches first last ⟨first, value :: address :: stack, store⟩
      ⟨last, stack, { store with shared := store.shared.setHeap address value }⟩ := by
  intro that temp
  cases stretch.ends
  refine ⟨4, address, Function.update temp 0 value, ?_⟩
  have written : routine.Steps (first + 3) (first + 4) 1
      ⟨first + 3, value :: stack, store, address, Function.update temp 0 value⟩
      ⟨first + 4, stack, { store with shared := store.shared.setHeap address value }, address,
        Function.update temp 0 value⟩ := by
    have same : store.shared.setHeap (address + 0) value = store.shared.setHeap address value := by
      rw [UInt16.add_zero]
    rw [← same]
    exact .cons ⟨first + 3, _, store, _, _⟩ stretch.tail.tail.tail rfl (.refl _)
  have read : routine.Steps (first + 2) (first + 4) 2
      ⟨first + 2, stack, store, address, Function.update temp 0 value⟩
      ⟨first + 4, stack, { store with shared := store.shared.setHeap address value }, address,
        Function.update temp 0 value⟩ := by
    refine .cons ⟨first + 2, _, store, _, _⟩ stretch.tail.tail ?_ written
    change some (Event.goes ⟨first + 3, Function.update temp 0 value 0 :: stack, _, _, _⟩) = _
    rw [Function.update_self]
  exact .cons ⟨first, _, store, _, _⟩ stretch rfl
    (.cons ⟨first + 1, _, store, _, _⟩ stretch.tail rfl read)

theorem reaches_drop {word : UInt16} (stretch : routine.Stretch first [.pop .temp 0] last) :
    routine.Reaches first (first + 1) ⟨first, word :: stack, store⟩ ⟨first + 1, stack, store⟩ :=
  .command stretch fun that temp => ⟨that, Function.update temp 0 word, rfl⟩

theorem reaches_add {left right : UInt16}
    (stretch : routine.Stretch first [.arithmetic .add] last) :
    routine.Reaches first last ⟨first, right :: left :: stack, store⟩
      ⟨last, (left + right) :: stack, store⟩ := by
  cases stretch.ends
  exact .command stretch fun that temp => ⟨that, temp, rfl⟩

/-- A return takes the word on top. -/
theorem comesTo_return {rounds finish : Nat} {word : UInt16}
    (stretch : routine.Stretch first [.«return»] last) :
    ComesTo routine first last rounds ⟨first, word :: stack, store⟩ finish stack
      (.returned word store) := by
  intro that temp
  cases stretch.ends
  have returns : routine.step? ⟨first, word :: stack, store, that, temp⟩ =
      some (.returns word store.shared) := stretch.step?.trans rfl
  exact ⟨0, _, .refl _, Nat.le_refl first, Nat.lt_succ_self first, returns⟩

/-- A branch without an alternative passes over its code if the condition does not hold. -/
theorem branch_comes {finish : String} {test inner : List Command} {word : UInt16} {middle : Store}
    {body : Store -> Option Meaning.Outcome} {guarding entering leaving rounds : Nat}
    (unique : (definedLabels routine.code).Nodup)
    (testStretch : routine.Stretch first test guarding)
    (guardStretch : routine.Stretch guarding [.arithmetic .not, .ifGoto finish] entering)
    (innerStretch : routine.Stretch entering inner leaving)
    (endStretch : routine.Stretch leaving [.label finish] last)
    (pushes : Pushes routine first guarding store [word] middle)
    (bodies : ∃ outcome, body middle = some outcome ∧
      ComesTo routine entering leaving rounds ⟨entering, stack, middle⟩ leaving stack outcome) :
    ∃ outcome, (if Meaning.isTrue word then body middle else some (.finished middle)) =
        some outcome ∧
      ComesTo routine first last rounds ⟨first, stack, store⟩ last stack outcome := by
  obtain rfl : last = leaving + 1 := endStretch.ends
  have belowBody : first ≤ entering := testStretch.le.trans guardStretch.le
  have belowEnd : first ≤ leaving := belowBody.trans innerStretch.le
  have tested := ((pushes stack).append (reaches_guard unique guardStretch endStretch.head word)
    testStretch.le guardStretch.le).widen (Nat.le_refl first) (innerStretch.le.trans endStretch.le)
  have leaves (final : Store) := (reaches_label endStretch stack final).widen belowEnd
    (Nat.le_refl (leaving + 1))
  by_cases holds : Meaning.isTrue word = true
  · rw [if_pos holds] at tested ⊢
    rcases bodies with ⟨outcome, known, comes⟩
    exact ⟨outcome, known, .after tested ((comes.widen belowBody endStretch.le).onward leaves)⟩
  · rw [if_neg holds] at tested ⊢
    exact ⟨.finished middle, rfl, .trans tested (leaves middle)⟩

/-- A branch with an alternative goes through one of the two, and leaves both behind the other. -/
theorem alternative_comes {finish otherwise : String} {test inner other : List Command}
    {word : UInt16} {middle : Store} {body alternative : Store -> Option Meaning.Outcome}
    {guarding entering leaving switching ending rounds : Nat}
    (unique : (definedLabels routine.code).Nodup)
    (testStretch : routine.Stretch first test guarding)
    (guardStretch : routine.Stretch guarding [.arithmetic .not, .ifGoto otherwise] entering)
    (innerStretch : routine.Stretch entering inner leaving)
    (switchStretch : routine.Stretch leaving [.goto finish, .label otherwise] switching)
    (otherStretch : routine.Stretch switching other ending)
    (endStretch : routine.Stretch ending [.label finish] last)
    (pushes : Pushes routine first guarding store [word] middle)
    (bodies : ∃ outcome, body middle = some outcome ∧
      ComesTo routine entering leaving rounds ⟨entering, stack, middle⟩ leaving stack outcome)
    (others : ∃ outcome, alternative middle = some outcome ∧
      ComesTo routine switching ending rounds ⟨switching, stack, middle⟩ ending stack outcome) :
    ∃ outcome, (if Meaning.isTrue word then body middle else alternative middle) = some outcome ∧
      ComesTo routine first last rounds ⟨first, stack, store⟩ last stack outcome := by
  obtain rfl : last = ending + 1 := endStretch.ends
  obtain rfl : switching = leaving + 2 := switchStretch.ends
  have belowBody : first ≤ entering := testStretch.le.trans guardStretch.le
  have belowSwitch : first ≤ leaving := belowBody.trans innerStretch.le
  have belowOther : first ≤ leaving + 2 := belowSwitch.trans (Nat.le_add_right leaving 2)
  have belowEnd : leaving + 2 ≤ ending := otherStretch.le
  have tested := ((pushes stack).append
    (reaches_guard unique guardStretch switchStretch.tail.head word) testStretch.le
    guardStretch.le).widen (Nat.le_refl first)
    (innerStretch.le.trans (switchStretch.le.trans (otherStretch.le.trans endStretch.le)))
  have leaves (final : Store) := (reaches_label endStretch stack final).widen
    (belowOther.trans belowEnd) (Nat.le_refl (ending + 1))
  by_cases holds : Meaning.isTrue word = true
  · rw [if_pos holds] at tested ⊢
    rcases bodies with ⟨outcome, known, comes⟩
    have jumps (final : Store) := ((reaches_goto unique switchStretch endStretch.head stack
      final).widen belowSwitch (by omega)).trans (leaves final)
    exact ⟨outcome, known, .after tested ((comes.widen belowBody (by omega)).onward jumps)⟩
  · rw [if_neg holds] at tested ⊢
    rcases others with ⟨outcome, known, comes⟩
    have enters := (reaches_label switchStretch.tail stack middle).widen
      (belowSwitch.trans (Nat.le_succ leaving)) (otherStretch.le.trans endStretch.le)
    exact ⟨outcome, known, .after (.trans tested enters)
      ((comes.widen belowOther endStretch.le).onward leaves)⟩

/-- A loop goes back to its label after each round, so its code goes through one round more than the
code from there on. -/
theorem loop_comes {start finish : String} {test inner : List Command}
    {condition : Store -> Option Meaning.Evaluated} {body : Store -> Option Meaning.Outcome}
    {testing guarding entering leaving limit : Nat}
    (unique : (definedLabels routine.code).Nodup)
    (startStretch : routine.Stretch first [.label start] testing)
    (testStretch : routine.Stretch testing test guarding)
    (guardStretch : routine.Stretch guarding [.arithmetic .not, .ifGoto finish] entering)
    (innerStretch : routine.Stretch entering inner leaving)
    (endStretch : routine.Stretch leaving [.goto start, .label finish] last)
    (tests : ∀ store, ∃ word middle, condition store = some (word, middle) ∧
      Pushes routine testing guarding store [word] middle)
    (bodies : ∀ store, ∃ outcome, body store = some outcome ∧
      ComesTo routine entering leaving limit ⟨entering, stack, store⟩ leaving stack outcome)
    (rounds : Nat) (enough : rounds ≤ limit) (store : Store) :
    ∃ outcome, Meaning.loop condition body rounds store = some outcome ∧
      ComesTo routine first last rounds ⟨first, stack, store⟩ last stack outcome := by
  induction rounds generalizing store with
  | zero =>
      exact ⟨.unfinished, rfl, fun that temp => ⟨0, _, Nat.le_refl 0, .refl _⟩⟩
  | succ rounds inductionHypothesis =>
      rcases tests store with ⟨word, middle, known, pushes⟩
      obtain rfl : testing = first + 1 := startStretch.ends
      obtain rfl : last = leaving + 2 := endStretch.ends
      have belowBody : first ≤ entering :=
        (Nat.le_succ first).trans (testStretch.le.trans guardStretch.le)
      have belowEnd : first ≤ leaving := belowBody.trans innerStretch.le
      have inside : first < leaving + 2 := Nat.lt_add_right 1 (Nat.lt_succ_of_le belowEnd)
      have tested := ((pushes stack).append
        (reaches_guard unique guardStretch endStretch.tail.head word) testStretch.le
        guardStretch.le).widen (Nat.le_succ first) (innerStretch.le.trans (Nat.le_add_right leaving 2))
      rw [Meaning.loop, known]
      simp only [Option.bind_eq_bind, Option.bind_some]
      by_cases holds : Meaning.isTrue word = true
      · rw [if_pos holds] at tested ⊢
        rcases bodies middle with ⟨outcome, evaluated, comes⟩
        have entered := (comes.fewer (Nat.le_of_succ_le enough)).widen belowBody
          (Nat.le_add_right leaving 2)
        rw [evaluated]
        cases outcome with
        | finished final =>
            rcases inductionHypothesis (Nat.le_of_succ_le enough) final with
              ⟨outcome, repeated, comes⟩
            have repeats := (reaches_goto unique endStretch startStretch.head stack final).widen
              belowEnd (Nat.le_succ (leaving + 1))
            exact ⟨outcome, repeated, .behindLabel startStretch inside (.after tested
              (.after (.trans entered repeats) comes))⟩
        | returned value final =>
            exact ⟨.returned value final, rfl,
              .behindLabel startStretch inside (.after tested entered)⟩
        | unfinished =>
            exact ⟨.unfinished, rfl, .behindLabel startStretch inside (.after tested entered)⟩
      · rw [if_neg holds] at tested ⊢
        have ends := (reaches_label endStretch.tail stack middle).widen
          (belowEnd.trans (Nat.le_succ leaving)) (Nat.le_refl (leaving + 2))
        exact ⟨.finished middle, rfl, .behindLabel startStretch inside (.after tested ends)⟩

end Constructs

mutual

/-- The code of a statement comes to what the statement comes to. -/
theorem statement_comes {routine : Routine} {setting : Setting} {scopes : Scopes}
    {labels after : LabelCounts} {first last : Nat} {commands : List Command}
    (settled : InSetting setting scopes routine)
    (unique : (definedLabels routine.code).Nodup) (rounds : Nat) :
    (tree : Statement) -> tree.Fits ->
      Writes (Code.statement scopes tree) labels commands () after ->
      routine.Stretch first commands last -> (stack : List UInt16) -> (store : Store) ->
      ∃ outcome, Meaning.statement setting routine.calls rounds tree store = some outcome ∧
        ComesTo routine first last rounds ⟨first, stack, store⟩ last stack outcome
  | .assign _ _ none value, fits, writes, stretch, stack, store => by
      rcases writes_assign writes with ⟨inner, declared, values, known, rfl⟩
      rcases stretch.append with ⟨_, front, behind⟩
      rcases expression_pushes settled value fits values front store with
        ⟨word, middle, evaluated, pushes⟩
      refine ⟨.finished (declared.write routine.file middle word), ?_, ?_⟩
      · rw [Meaning.statement, evaluated]
        simp only [Option.bind_eq_bind, Option.bind_some, ← settled.lookup?, known, settled.file]
        rfl
      · cases behind.ends
        exact (pushes stack).append (reaches_pop behind) front.le behind.le
  | .assign _ _ (some index) value, fits, writes, stretch, stack, store => by
      rcases writes_assignElement writes with
        ⟨array, _, offsetCode, valueCode, known, indexes, values, rfl⟩
      rcases stretch.append with ⟨_, front, setting⟩
      rcases front.append with ⟨_, address, valueStretch⟩
      rcases address.append with ⟨_, operands, adding⟩
      rcases operands.append with ⟨_, base, offsetStretch⟩
      rcases expression_pushes settled index fits.1 indexes offsetStretch store with
        ⟨offset, middle, offsetKnown, offsetPushes⟩
      rcases expression_pushes settled value fits.2 values valueStretch middle with
        ⟨word, final, valueKnown, valuePushes⟩
      have operandsPushed := (pushes_variable base).append offsetPushes base.le offsetStretch.le
      have pushed : Pushes routine first _ store [array.read routine.file store + offset] middle :=
        operandsPushed.replace (fun stack => reaches_add adding) operands.le adding.le
      refine ⟨.finished { final with
        shared := final.shared.setHeap (array.read routine.file store + offset) word }, ?_, ?_⟩
      · rw [Meaning.statement, ← settled.lookup?, known, settled.file]
        simp only [Option.bind_eq_bind, Option.bind_some, offsetKnown, valueKnown]
        rfl
      · exact ((pushed.append valuePushes address.le valueStretch.le) stack).append
          (reaches_setElement setting) front.le setting.le
  | .branch _ condition consequence none, fits, writes, stretch, stack, store => by
      rcases writes_branch writes with ⟨between, test, inner, tests, inners, rfl⟩
      rcases stretch.append with ⟨_, front, endStretch⟩
      rcases front.append with ⟨_, guarded, innerStretch⟩
      rcases guarded.append with ⟨_, testStretch, guardStretch⟩
      rcases expression_pushes settled condition fits.1 tests testStretch store with
        ⟨word, middle, evaluated, pushes⟩
      rw [Meaning.statement, evaluated]
      exact branch_comes unique testStretch guardStretch innerStretch endStretch pushes
        (statements_come settled unique rounds consequence fits.2 inners innerStretch stack middle)
  | .branch _ condition consequence (some alternative), fits, writes, stretch, stack, store => by
      rcases writes_alternative writes with
        ⟨between, _, _, _, test, inner, other, tests, rfl, rfl, inners, others, rfl⟩
      rcases stretch.append with ⟨_, untilEnd, endStretch⟩
      rcases untilEnd.append with ⟨_, switched, otherStretch⟩
      rcases switched.append with ⟨_, front, switchStretch⟩
      rcases front.append with ⟨_, guarded, innerStretch⟩
      rcases guarded.append with ⟨_, testStretch, guardStretch⟩
      rcases expression_pushes settled condition fits.1 tests testStretch store with
        ⟨word, middle, evaluated, pushes⟩
      rw [Meaning.statement, evaluated]
      exact alternative_comes unique testStretch guardStretch innerStretch switchStretch
        otherStretch endStretch pushes
        (statements_come settled unique rounds consequence fits.2.1 inners innerStretch stack middle)
        (statements_come settled unique rounds alternative fits.2.2 others otherStretch stack middle)
  | .loop _ condition body, fits, writes, stretch, stack, store => by
      rcases writes_loop writes with
        ⟨_, _, middle, test, inner, rfl, rfl, tests, inners, rfl⟩
      rcases stretch.append with ⟨_, front, endStretch⟩
      rcases front.append with ⟨_, entered, innerStretch⟩
      rcases entered.append with ⟨_, tested, guardStretch⟩
      rcases tested.append with ⟨_, startStretch, testStretch⟩
      exact loop_comes unique startStretch testStretch guardStretch innerStretch endStretch
        (expression_pushes settled condition fits.1 tests testStretch)
        (statements_come settled unique rounds body fits.2 inners innerStretch stack) rounds
        (Nat.le_refl rounds) store
  | .perform _ target, fits, writes, stretch, stack, store => by
      rcases writes_perform writes with ⟨inner, calls, rfl⟩
      rcases stretch.append with ⟨_, front, behind⟩
      rcases call_pushes settled target fits calls front store with
        ⟨word, final, evaluated, pushes⟩
      refine ⟨.finished final, ?_, ?_⟩
      · rw [Meaning.statement, evaluated]
        rfl
      · cases behind.ends
        exact (pushes stack).append (reaches_drop behind) front.le behind.le
  | .«return» _ none, _, writes, stretch, stack, store => by
      rcases writes_emit.mp writes with ⟨rfl, rfl⟩
      have split : routine.Stretch first ([.push .constant 0] ++ [.«return»]) last := stretch
      rcases split.append with ⟨_, front, behind⟩
      refine ⟨.returned 0 store, rfl, ?_⟩
      exact .after ((pushes_word front stack).widen (Nat.le_refl _) behind.le)
        ((comesTo_return behind).widen front.le (Nat.le_refl _))
  | .«return» _ (some value), fits, writes, stretch, stack, store => by
      rcases writes_return writes with ⟨inner, values, rfl⟩
      rcases stretch.append with ⟨_, front, behind⟩
      rcases expression_pushes settled value fits values front store with
        ⟨word, final, evaluated, pushes⟩
      refine ⟨.returned word final, ?_, ?_⟩
      · rw [Meaning.statement, evaluated]
        rfl
      · exact .after ((pushes stack).widen (Nat.le_refl _) behind.le)
          ((comesTo_return behind).widen front.le (Nat.le_refl _))

/-- The code of statements comes to what the statements come to. -/
theorem statements_come {routine : Routine} {setting : Setting} {scopes : Scopes}
    {labels after : LabelCounts} {first last : Nat} {commands : List Command}
    (settled : InSetting setting scopes routine)
    (unique : (definedLabels routine.code).Nodup) (rounds : Nat) :
    (trees : List Statement) -> statementsFit trees ->
      Writes (Code.statements scopes trees) labels commands () after ->
      routine.Stretch first commands last -> (stack : List UInt16) -> (store : Store) ->
      ∃ outcome, Meaning.statements setting routine.calls rounds trees store = some outcome ∧
        ComesTo routine first last rounds ⟨first, stack, store⟩ last stack outcome
  | [], _, writes, stretch, stack, store => by
      rcases writes_pure.mp writes with ⟨rfl, -, rfl⟩
      cases stretch.nil
      exact ⟨.finished store, rfl, .refl _⟩
  | tree :: rest, fits, writes, stretch, stack, store => by
      rcases writes_statements writes with ⟨between, front, behind, firsts, rests, rfl⟩
      rcases stretch.append with ⟨_, firstCode, restCode⟩
      rcases statement_comes settled unique rounds tree fits.1 firsts firstCode stack store with
        ⟨outcome, known, comes⟩
      rw [Meaning.statements, known]
      cases outcome with
      | finished middle =>
          rcases statements_come settled unique rounds rest fits.2 rests restCode stack middle with
            ⟨outcome, known, behind⟩
          refine ⟨outcome, known, ?_⟩
          exact .after (Routine.Reaches.widen comes (Nat.le_refl _) restCode.le)
            (behind.widen firstCode.le (Nat.le_refl _))
      | returned value final =>
          exact ⟨.returned value final, rfl, comes.widen (Nat.le_refl _) restCode.le⟩
      | unfinished => exact ⟨.unfinished, rfl, comes.widen (Nat.le_refl _) restCode.le⟩

end

/-! ## Behaviour -/

/-- A run from a place inside a range does what is meant, given a bound on the rounds of loops.  It
finishes, returns or runs on just as it is meant to. -/
structure Realizes (routine : Routine) (first last : Nat) (start : Place) (stack : List UInt16)
    (meaning : Nat -> Option Meaning.Outcome) : Prop where
  /-- All names are declared. -/
  defined : ∀ rounds, meaning rounds ≠ none
  finishes : ∀ final, (∃ rounds, meaning rounds = some (.finished final)) ↔
    routine.Reaches first last start ⟨last, stack, final⟩
  returns : ∀ value shared,
    (∃ rounds final, meaning rounds = some (.returned value final) ∧ final.shared = shared) ↔
      routine.Returns first last start value shared
  runsOn : (∀ rounds, meaning rounds = some .unfinished) ↔
    ∀ least, routine.Lasts first last start least

section Behaviour

variable {routine : Routine} {first last : Nat} {start : Place} {stack : List UInt16}
  {meaning : Nat -> Option Meaning.Outcome}

theorem halts_last (routine : Routine) (last : Nat) (stack : List UInt16) (store : Store)
    (that : UInt16) (temp : UInt16 -> UInt16) : routine.Halts last ⟨last, stack, store, that, temp⟩ :=
  fun inside => absurd inside (Nat.lt_irrefl last)

theorem halts_return {state : Activation} {value : UInt16} {shared : Shared}
    (returns : routine.step? state = some (.returns value shared)) : routine.Halts last state := by
  intro _ next goes
  rw [returns] at goes
  cases goes

/-- A run that cannot go on ends as the outcome says, if loops may take more rounds than there were
steps. -/
theorem ComesTo.halted {count : Nat} {that : UInt16} {temp : UInt16 -> UInt16} {state : Activation}
    {outcome : Meaning.Outcome}
    (comes : ComesTo routine first last (count + 1) start last stack outcome)
    (steps : routine.Steps first last count (start.state that temp) state)
    (halts : routine.Halts last state) :
    (∃ final that' temp', outcome = .finished final ∧
      state = ⟨last, stack, final, that', temp'⟩) ∨
    (∃ value final, outcome = .returned value final ∧ state.position < last ∧
      routine.step? state = some (.returns value final.shared)) := by
  cases outcome with
  | finished final =>
      rcases comes that temp with ⟨more, that', temp', stepsToo⟩
      have same := steps.end_eq halts stepsToo (halts_last routine last stack final that' temp')
      exact .inl ⟨final, that', temp', rfl, same⟩
  | returned value final =>
      rcases comes that temp with ⟨more, other, stepsToo, -, inside, returns⟩
      cases steps.end_eq halts stepsToo (halts_return returns)
      exact .inr ⟨value, final, rfl, inside, returns⟩
  | unfinished =>
      rcases comes that temp with ⟨more, other, many, stepsToo⟩
      exact absurd (many.trans (steps.length_le halts stepsToo)) (Nat.not_succ_le_self count)

/-- What a run comes to is all that it does, because it has no choice. -/
theorem Realizes.of_comesTo (comes : ∀ rounds, ∃ outcome, meaning rounds = some outcome ∧
    ComesTo routine first last rounds start last stack outcome) :
    Realizes routine first last start stack meaning := by
  refine ⟨?_, ?_, ?_, ?_⟩
  · intro rounds undefined
    rcases comes rounds with ⟨outcome, known, -⟩
    rw [known] at undefined
    cases undefined
  · intro final
    constructor
    · rintro ⟨rounds, finished⟩
      rcases comes rounds with ⟨outcome, known, comes⟩
      cases finished.symm.trans known
      exact comes
    · intro reaches
      rcases reaches 0 (fun _ => 0) with ⟨count, that, temp, steps⟩
      rcases comes (count + 1) with ⟨outcome, known, comes⟩
      rcases comes.halted steps (halts_last routine last stack final that temp) with
        ⟨other, that', temp', rfl, same⟩ | ⟨value, other, rfl, inside, -⟩
      · cases same
        exact ⟨count + 1, known⟩
      · exact absurd inside (Nat.lt_irrefl last)
  · intro value shared
    constructor
    · rintro ⟨rounds, final, returned, rfl⟩
      rcases comes rounds with ⟨outcome, known, comes⟩
      cases returned.symm.trans known
      exact comes
    · intro returns
      rcases returns 0 (fun _ => 0) with ⟨count, state, steps, -, inside, returns⟩
      rcases comes (count + 1) with ⟨outcome, known, comes⟩
      rcases comes.halted steps (halts_return returns) with
        ⟨final, that', temp', rfl, rfl⟩ | ⟨other, final, rfl, -, returnsToo⟩
      · exact absurd inside (Nat.lt_irrefl last)
      · cases returns.symm.trans returnsToo
        exact ⟨count + 1, final, known, rfl⟩
  · constructor
    · intro unfinished least
      rcases comes least with ⟨outcome, known, comes⟩
      cases (unfinished least).symm.trans known
      exact comes
    · intro lasts rounds
      rcases comes rounds with ⟨outcome, known, comes⟩
      have endless {count : Nat} {state : Activation}
          (steps : routine.Steps first last count (start.state 0 fun _ => 0) state)
          (halts : routine.Halts last state) : False := by
        rcases lasts (count + 1) 0 (fun _ => 0) with ⟨more, other, many, stepsToo⟩
        exact Nat.not_succ_le_self count (many.trans (steps.length_le halts stepsToo))
      cases outcome with
      | finished final =>
          rcases comes 0 (fun _ => 0) with ⟨count, that, temp, steps⟩
          exact (endless steps (halts_last routine last stack final that temp)).elim
      | returned value final =>
          rcases comes 0 (fun _ => 0) with ⟨count, state, steps, -, -, returns⟩
          exact (endless steps (halts_return returns)).elim
      | unfinished => exact known

end Behaviour

end Jack
end HackToolchain
