import HackToolchain.Proofs.Vm.Segments

namespace HackToolchain
namespace Vm

open Hack Code

/-!
# What comparisons answer

A comparison takes the difference of the two words on top of the stack and asks for its sign.  The
difference is a word like any other and wraps.  As long as the difference of the two numbers that the
words stand for is itself such a number, its sign tells their order.  Otherwise the wrapped difference
has the opposite sign, and is not zero, so the answer is the one for the two words exchanged.

Words stand for numbers with a sign here.  Equality does not depend on that, and is always told
right, because exchanging two words does not change whether they are equal.
-/

/-! ## Signed words -/

/-- The number that a word stands for if its highest bit is read as a sign. -/
def signed (word : UInt16) : Int := word.toInt16.toInt

/-- The difference of the numbers that two words stand for is one that a word stands for. -/
def Fits (first second : UInt16) : Prop :=
  -32768 ≤ signed first - signed second ∧ signed first - signed second ≤ 32767

instance Fits.decidable (first second : UInt16) : Decidable (Fits first second) :=
  inferInstanceAs (Decidable (_ ∧ _))

theorem signed_range (word : UInt16) : -32768 ≤ signed word ∧ signed word ≤ 32767 := by
  have below := word.toInt16.toInt_lt
  have above := word.toInt16.le_toInt
  unfold signed
  omega

theorem signed_inj {first second : UInt16} : signed first = signed second ↔ first = second := by
  constructor
  · intro same
    exact congrArg Int16.toUInt16 (Int16.toInt_inj.mp same)
  · rintro rfl
    rfl

theorem signed_eq_zero_iff {word : UInt16} : signed word = 0 ↔ word = 0 :=
  @signed_inj word 0

theorem isNegative_eq (word : UInt16) : isNegative word = decide (signed word < 0) := by
  have sign : isNegative word = word.toBitVec.msb := (BitVec.msb_eq_getLsbD_last word.toBitVec).symm
  rw [sign, BitVec.msb_eq_toInt]
  rfl

/-- The difference of two words stands for the difference of their numbers, up to the number of
words. -/
theorem signed_sub (first second : UInt16) :
    signed (first - second) = (signed first - signed second).bmod 65536 := by
  unfold signed
  rw [UInt16.toInt16_sub, Int16.toInt_sub]

theorem signed_sub_of_fits {first second : UInt16} (fits : Fits first second) :
    signed (first - second) = signed first - signed second := by
  rcases fits with ⟨above, below⟩
  rw [signed_sub]
  exact Int.bmod_eq_of_le_mul_two (by omega) (by omega)

/-- A difference that does not fit has the opposite sign as a word. -/
theorem signed_sub_of_not_fits {first second : UInt16} (wraps : ¬Fits first second) :
    (signed second < signed first ∧ signed (first - second) < 0) ∨
      (signed first < signed second ∧ 0 < signed (first - second)) := by
  have firstRange := signed_range first
  have secondRange := signed_range second
  unfold Fits at wraps
  rw [signed_sub, Int.bmod_def]
  omega

/-! ## Answers -/

/-- What a comparison asks of two numbers, that of the lower word first. -/
def Operation.asks? : Operation -> Option (Int -> Int -> Bool)
  | .eq => some fun first second => first == second
  | .gt => some fun first second => decide (second < first)
  | .lt => some fun first second => decide (first < second)
  | _ => none

/-- What a comparison answers about two words.  The numbers are exchanged if their difference does not
fit. -/
def answer (asks : Int -> Int -> Bool) (first second : UInt16) : Bool :=
  if Fits first second then asks (signed first) (signed second)
  else asks (signed second) (signed first)

/-- Equality is told right even if the difference does not fit. -/
theorem answer_equal (first second : UInt16) :
    answer (fun first second => first == second) first second = (first == second) := by
  apply Bool.eq_iff_iff.mpr
  unfold answer
  by_cases fits : Fits first second
  · rw [if_pos fits, beq_iff_eq, beq_iff_eq, signed_inj]
  · rw [if_neg fits, beq_iff_eq, beq_iff_eq, signed_inj]
    exact eq_comm

/-- The answer about two numbers is known from the sign of anything that has the sign of their
difference. -/
theorem asks_of_sign {operation : Operation} {asks : Int -> Int -> Bool}
    (comparison : operation.asks? = some asks) {sign first second : Int}
    (zero : sign = 0 ↔ first = second) (positive : 0 < sign ↔ second < first)
    (negative : sign < 0 ↔ first < second) : asks sign 0 = asks first second := by
  cases operation with
  | eq =>
      cases comparison
      apply Bool.eq_iff_iff.mpr
      rw [beq_iff_eq, beq_iff_eq, zero]
  | gt =>
      cases comparison
      exact decide_eq_decide.mpr positive
  | lt =>
      cases comparison
      exact decide_eq_decide.mpr negative
  | _ => cases comparison

/-- The sign of the wrapped difference gives the answer. -/
theorem asks_difference {operation : Operation} {asks : Int -> Int -> Bool}
    (comparison : operation.asks? = some asks) (first second : UInt16) :
    asks (signed (first - second)) 0 = answer asks first second := by
  unfold answer
  by_cases fits : Fits first second
  · have same := signed_sub_of_fits fits
    rw [if_pos fits]
    apply asks_of_sign comparison
    · omega
    · omega
    · omega
  · have opposite := signed_sub_of_not_fits fits
    rw [if_neg fits]
    apply asks_of_sign comparison
    · omega
    · omega
    · omega

/-- The jump of a comparison's code is taken if the comparison holds between the difference and
zero. -/
theorem exists_condition {operation : Operation} {asks : Int -> Int -> Bool}
    (comparison : operation.asks? = some asks) :
    ∃ condition : Jump, (∀ word, condition.holds word = asks (signed word) 0) ∧
      ∀ label, Code.operation label operation = Code.compare condition label := by
  have zero (word : UInt16) : (word == 0) = (signed word == 0) := by
    apply Bool.eq_iff_iff.mpr
    rw [beq_iff_eq, beq_iff_eq, signed_eq_zero_iff]
  cases operation with
  | eq =>
      cases comparison
      exact ⟨.equal, zero, fun _ => rfl⟩
  | gt =>
      cases comparison
      refine ⟨.greater, fun word => ?_, fun _ => rfl⟩
      rw [Jump.holds, zero, isNegative_eq]
      apply Bool.eq_iff_iff.mpr
      simp only [Bool.not_eq_true', Bool.or_eq_false_iff, decide_eq_false_iff_not, beq_eq_false_iff_ne,
        decide_eq_true_eq]
      omega
  | lt =>
      cases comparison
      exact ⟨.less, isNegative_eq, fun _ => rfl⟩
  | _ => cases comparison

/-! ## Comparisons in memory -/

/-- Memory with the two words on top of the stack replaced by one. -/
def afterCompare (memory : Memory) (word : UInt16) : Memory := fun cell =>
  if cell = 0 then memory 0 - 1
  else if cell = Address.ofWord (memory 0 - 2) then word
  else memory cell

/-- Popping two words and pushing one leaves the pointer one cell lower, and the second word that was
popped replaced. -/
theorem pushed_lowered_lowered {memory : Memory} (apart : Address.ofWord (memory 0 - 2) ≠ 0)
    (word : UInt16) : pushed (lowered (lowered memory)) word = afterCompare memory word := by
  have stack : lowered (lowered memory) 0 = memory 0 - 2 := by
    rw [lowered, Function.update_self, lowered, Function.update_self, sub_one_sub_one]
  have raised : memory 0 - 2 + 1 = memory 0 - 1 := by
    rw [← sub_one_sub_one, UInt16.sub_add_cancel]
  rw [pushed_eq_afterPush (by rw [stack]; exact apart)]
  funext cell
  unfold afterPush afterCompare
  rw [stack, raised]
  by_cases atStack : cell = 0
  · rw [if_pos atStack, if_pos atStack]
  · rw [if_neg atStack, if_neg atStack, lowered, Function.update_of_ne atStack, lowered,
      Function.update_of_ne atStack]

/-- The word below the one on top, which a comparison pops second. -/
theorem top_lowered {memory : Memory} (apart : Address.ofWord (memory 0 - 2) ≠ 0) :
    top (lowered memory) = memory (Address.ofWord (memory 0 - 2)) := by
  have stack : lowered memory 0 - 1 = memory 0 - 2 := by
    rw [lowered, Function.update_self, sub_one_sub_one]
  rw [top_eq (by rw [stack]; exact apart), stack, lowered, Function.update_of_ne apart]

/-- The code of a comparison replaces the two words on top of the stack by its answer, and changes
nothing else. -/
theorem reaches_answer {image : List UInt16} {binding : String -> UInt16} {place : Nat}
    (standard : Standard binding) (core : Core) {operation : Operation}
    {asks : Int -> Int -> Bool} (comparison : operation.asks? = some asks) {label : String}
    (placed : Placed image binding place (Code.operation label operation))
    (topApart : Address.ofWord (core.memory 0 - 1) ≠ 0)
    (belowApart : Address.ofWord (core.memory 0 - 2) ≠ 0) :
    ∃ last, Processor.Reaches image ⟨place, core⟩
        ⟨place + Listing.size (Code.operation label operation), last⟩ ∧
      last.memory = afterCompare core.memory (Machine.truth (answer asks
        (core.memory (Address.ofWord (core.memory 0 - 2)))
        (core.memory (Address.ofWord (core.memory 0 - 1))))) := by
  rcases exists_condition comparison with ⟨condition, holds, code⟩
  rw [code] at placed ⊢
  rcases reaches_compare standard core placed with ⟨last, reached, after⟩
  refine ⟨last, reached, ?_⟩
  rw [after, holds, asks_difference comparison, top_lowered belowApart, top_eq topApart,
    pushed_lowered_lowered belowApart]

/-! ## Comparisons of translated programs -/

section Programs

variable {image : List UInt16} {options : Options} {files : List File} {code : Listing}

/-- The code at the site of a comparison goes on to the next site with the answer. -/
theorem reaches_answer_at_site {sites : List Site}
    (assembled : assemble (listing options sites) = .ok image) {position : Nat} {site : Site}
    {operation : Operation} {asks : Int -> Int -> Bool} (found : sites[position]? = some site)
    (command : site.command = .arithmetic operation) (comparison : operation.asks? = some asks)
    (core : Core) (topApart : Address.ofWord (core.memory 0 - 1) ≠ 0)
    (belowApart : Address.ofWord (core.memory 0 - 2) ≠ 0) :
    ∃ last, Processor.Reaches image ⟨place options sites position, core⟩
        ⟨place options sites (position + 1), last⟩ ∧
      last.memory = afterCompare core.memory (Machine.truth (answer asks
        (core.memory (Address.ofWord (core.memory 0 - 2)))
        (core.memory (Address.ofWord (core.memory 0 - 1))))) := by
  have standard : Standard (binding (listing options sites)) :=
    fun _ _ listed => binding_predefined assembled listed
  rcases placed_code (placed_of_assemble assembled) found with ⟨label, here, behind⟩
  rw [command] at here behind
  rw [behind]
  exact reaches_answer standard core comparison here topApart belowApart

/-- The code of a comparison for equality answers whether the two words are the same, for all words. -/
theorem processor_tells_equality (translated : translate options files = .ok code)
    (assembled : assemble code = .ok image) {position : Nat} {site : Site}
    (found : (Site.ofFiles files)[position]? = some site) (command : site.command = .arithmetic .eq)
    (core : Core) (topApart : Address.ofWord (core.memory 0 - 1) ≠ 0)
    (belowApart : Address.ofWord (core.memory 0 - 2) ≠ 0) :
    ∃ last, Processor.Reaches image ⟨place options (Site.ofFiles files) position, core⟩
        ⟨place options (Site.ofFiles files) (position + 1), last⟩ ∧
      last.memory = afterCompare core.memory (Machine.truth
        (core.memory (Address.ofWord (core.memory 0 - 2)) ==
          core.memory (Address.ofWord (core.memory 0 - 1)))) := by
  rcases translate_ok translated with ⟨rfl, -⟩
  rw [← answer_equal]
  exact reaches_answer_at_site assembled found command rfl core topApart belowApart

/-- Take a program that is translated and assembled, and any state of the processor at the code of a
comparison.  The code goes on to the next command with the two words on top of the stack replaced by
the comparison's answer, and nothing else changed.  The answer is about the two words as numbers with a
sign, in their order if the difference of these numbers fits a word, and exchanged if it does not. -/
theorem processor_compares (translated : translate options files = .ok code)
    (assembled : assemble code = .ok image) {position : Nat} {site : Site} {operation : Operation}
    {asks : Int -> Int -> Bool} (found : (Site.ofFiles files)[position]? = some site)
    (command : site.command = .arithmetic operation) (comparison : operation.asks? = some asks)
    (core : Core) (topApart : Address.ofWord (core.memory 0 - 1) ≠ 0)
    (belowApart : Address.ofWord (core.memory 0 - 2) ≠ 0) :
    let first := core.memory (Address.ofWord (core.memory 0 - 2))
    let second := core.memory (Address.ofWord (core.memory 0 - 1))
    ∃ last, Processor.Reaches image ⟨place options (Site.ofFiles files) position, core⟩
        ⟨place options (Site.ofFiles files) (position + 1), last⟩ ∧
      last.memory = afterCompare core.memory (Machine.truth (answer asks first second)) := by
  intro first second
  rcases translate_ok translated with ⟨rfl, -⟩
  exact reaches_answer_at_site assembled found command comparison core topApart belowApart

/-- Minus one is less than five.  Of the least number and one the first is told to be greater, because
their difference does not fit. -/
theorem processor_compares_two_pairs :
    let files := [File.ofCommands "A" [.arithmetic .lt, .arithmetic .gt]]
    let sites := Site.ofFiles files
    let code := listing {} sites
    let stack (first second : UInt16) : Memory := fun cell =>
      if cell = 0 then 258 else if cell = 256 then first else if cell = 257 then second else 0
    translate {} files = .ok code ∧ ∃ image, assemble code = .ok image ∧
      (∃ last, Processor.Reaches image ⟨place {} sites 0, ⟨0, 0, stack 65535 5⟩⟩
          ⟨place {} sites 1, last⟩ ∧ last.memory 0 = 257 ∧ last.memory 256 = 65535) ∧
      ∃ last, Processor.Reaches image ⟨place {} sites 1, ⟨0, 0, stack 32768 1⟩⟩
        ⟨place {} sites 2, last⟩ ∧ last.memory 0 = 257 ∧ last.memory 256 = 65535 := by
  intro files sites code stack
  have translated : translate {} files = .ok code := by decide +kernel
  rcases exists_image (show (assemble code).toOption.isSome = true by decide +kernel) with
    ⟨image, assembled⟩
  have first : sites[0]? = some ⟨.ofFile "A", .arithmetic .lt, 1⟩ := rfl
  have second : sites[1]? = some ⟨.ofFile "A", .arithmetic .gt, 2⟩ := rfl
  refine ⟨translated, image, assembled, ?_, ?_⟩
  · rcases processor_compares translated assembled first rfl rfl ⟨0, 0, stack 65535 5⟩
      (by decide) (by decide) with ⟨last, reached, after⟩
    refine ⟨last, reached, ?_⟩
    rw [after]
    decide
  · rcases processor_compares translated assembled second rfl rfl ⟨0, 0, stack 32768 1⟩
      (by decide) (by decide) with ⟨last, reached, after⟩
    refine ⟨last, reached, ?_⟩
    rw [after]
    decide

/-- The largest number is told to be less than minus one. -/
theorem largest_word_less_than_minus_one :
    let source := "push constant 32767\npush constant 1\nneg\nlt\n"
    let commands : List Command :=
      [.push .constant 32767, .push .constant 1, .arithmetic .neg, .arithmetic .lt]
    let sites := Site.ofFiles [File.ofCommands "Cmp" commands]
    let memory : Memory := fun cell =>
      if cell = 0 then 258 else if cell = 256 then 32767 else if cell = 257 then 65535 else 0
    translateSources {} [("Cmp", source)] = .ok (listing {} sites) ∧
      ∃ image, assemble (listing {} sites) = .ok image ∧
      ¬signed 32767 < signed 65535 ∧
      ∃ last, Processor.Reaches image ⟨place {} sites 3, ⟨0, 0, memory⟩⟩
        ⟨place {} sites 4, last⟩ ∧ last.memory 0 = 257 ∧ last.memory 256 = 65535 := by
  intro source commands sites memory
  rcases exists_image (show (assemble (listing {} sites)).toOption.isSome = true by decide +kernel)
    with ⟨image, assembled⟩
  refine ⟨by decide +kernel, image, assembled, by decide, ?_⟩
  have found : sites[3]? = some ⟨.ofFile "Cmp", .arithmetic .lt, 4⟩ := rfl
  rcases reaches_answer_at_site assembled found rfl rfl ⟨0, 0, memory⟩ (by decide) (by decide)
    with ⟨last, reached, after⟩
  refine ⟨last, reached, ?_⟩
  rw [after]
  decide

end Programs

end Vm
end HackToolchain
