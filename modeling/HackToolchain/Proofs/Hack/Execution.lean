import HackToolchain.Proofs.Hack.Processor

namespace HackToolchain
namespace Hack

/-!
# Running listings

An image holds words, but code is written as a listing.  `Placed` says that a listing's words stand
in an image from some place on, where symbols are resolved by a binding, and that the binding takes
the listing's labels to the places of the words behind them.  Nothing else is assumed of an image:
code may stand anywhere, and other code before and behind it.

`Core.after` runs a listing entry by entry, without a counter.  It is what the processor does with
placed code as long as no entry jumps.  A jump ends such a stretch and is treated by itself.
-/

namespace Processor

variable {image : List UInt16}

theorem run?_add (image : List UInt16) (first second : Nat) (state : Processor) :
    state.run? image (first + second) = (state.run? image first).bind (run? image second) := by
  induction first generalizing state with
  | zero => simp only [Nat.zero_add, run?, Option.bind_some]
  | succ first inductionHypothesis =>
      rw [Nat.succ_add, run?, run?, Option.bind_assoc]
      exact congrArg _ (funext inductionHypothesis)

theorem Reaches.refl (state : Processor) : Reaches image state state := ⟨0, rfl⟩

theorem Reaches.trans {first second third : Processor} (before : Reaches image first second)
    (behind : Reaches image second third) : Reaches image first third := by
  rcases before with ⟨count, reached⟩
  rcases behind with ⟨more, finished⟩
  refine ⟨count + more, ?_⟩
  rw [run?_add, reached]
  exact finished

theorem Reaches.step {state next : Processor} (taken : state.step? image = some next) :
    Reaches image state next := by
  refine ⟨1, ?_⟩
  rw [run?, taken]
  rfl

end Processor

/-! ## Placed code -/

/-- The word of an entry under a binding of the symbols. -/
def Instruction.word (binding : String -> UInt16) : Instruction -> Option UInt16
  | .value number => some (addressWord number)
  | .symbol name => some (addressWord (binding name))
  | .compute destination computation jump => some (computeWord destination computation jump)
  | .label _ | .comment _ => none

/-- The number of words that an entry takes up. -/
def Instruction.size (entry : Instruction) : Nat := if entry.isEncoded then 1 else 0

/-- The number of words that a listing takes up. -/
def Listing.size (listing : Listing) : Nat := (listing.map Instruction.size).sum

@[simp] theorem Listing.size_nil : Listing.size [] = 0 := rfl

@[simp] theorem Listing.size_cons (entry : Instruction) (rest : Listing) :
    Listing.size (entry :: rest) = entry.size + Listing.size rest := by
  simp only [Listing.size, List.map_cons, List.sum_cons]

@[simp] theorem Listing.size_append (first second : Listing) :
    Listing.size (first ++ second) = Listing.size first + Listing.size second := by
  simp only [Listing.size, List.map_append, List.sum_append]

/-- An entry stands at a place of an image.  A label stands where its symbol is bound to, which has
to be in instruction memory. -/
def Instruction.StandsAt (image : List UInt16) (binding : String -> UInt16) (place : Nat) :
    Instruction -> Prop
  | .label name => (binding name).toNat = place ∧ place < memorySize
  | .comment _ => True
  | entry => image[place]? = entry.word binding

/-- A listing stands in an image from a place on. -/
def Placed (image : List UInt16) (binding : String -> UInt16) : Nat -> Listing -> Prop
  | _, [] => True
  | place, entry :: rest =>
    entry.StandsAt image binding place ∧ Placed image binding (place + entry.size) rest

variable {image : List UInt16} {binding : String -> UInt16}

theorem placed_append (place : Nat) (first second : Listing) :
    Placed image binding place (first ++ second) ↔
      Placed image binding place first ∧
        Placed image binding (place + Listing.size first) second := by
  induction first generalizing place with
  | nil => simp only [List.nil_append, Placed, true_and, Listing.size_nil, Nat.add_zero]
  | cons entry rest inductionHypothesis =>
      rw [List.cons_append, Placed, Placed, inductionHypothesis, Listing.size_cons, and_assoc,
        Nat.add_assoc]

theorem Placed.left {place : Nat} {first second : Listing}
    (placed : Placed image binding place (first ++ second)) : Placed image binding place first :=
  ((placed_append place first second).mp placed).1

theorem Placed.right {place : Nat} {first second : Listing}
    (placed : Placed image binding place (first ++ second)) :
    Placed image binding (place + Listing.size first) second :=
  ((placed_append place first second).mp placed).2

/-- A placed label is bound to where it stands. -/
theorem Placed.label {place : Nat} {name : String} {rest : Listing}
    (placed : Placed image binding place (.label name :: rest)) :
    (Address.ofWord (binding name)).val = place := by
  rcases placed.1 with ⟨bound, inside⟩
  rw [Address.ofWord, Fin.val_ofNat, bound]
  exact Nat.mod_eq_of_lt inside

/-! ## Running code that does not jump -/

namespace Core

/-- What an entry does to the registers and to memory. -/
def perform (binding : String -> UInt16) (core : Core) : Instruction -> Core
  | .value number => { core with address := addressWord number }
  | .symbol name => { core with address := addressWord (binding name) }
  | .compute destination computation _ => core.store destination (computation.value core)
  | .label _ | .comment _ => core

/-- What a listing does, entry by entry. -/
def after (binding : String -> UInt16) (core : Core) (code : Listing) : Core :=
  code.foldl (perform binding) core

@[simp] theorem after_nil (core : Core) : core.after binding [] = core := rfl

@[simp] theorem after_cons (core : Core) (entry : Instruction) (rest : Listing) :
    core.after binding (entry :: rest) = (core.perform binding entry).after binding rest := rfl

theorem after_append (core : Core) (first second : Listing) :
    core.after binding (first ++ second) = (core.after binding first).after binding second :=
  List.foldl_append

end Core

/-- An entry that the processor goes on behind. -/
def Instruction.goesOn : Instruction -> Bool
  | .compute _ computation jump => jump.isNone && Computation.all.contains computation
  | _ => true

namespace Processor

theorem step?_load {place : Nat} {core : Core} {word : UInt16}
    (placed : image[place]? = some (addressWord word)) :
    step? image ⟨place, core⟩ = some ⟨place + 1, { core with address := addressWord word }⟩ := by
  rw [step?, placed]
  exact congrArg some (execute_addressWord ⟨place, core⟩ word)

theorem step?_compute {place : Nat} {core : Core} {destination : Destination}
    {computation : Computation} {jump : Option Jump} (listed : computation ∈ Computation.all)
    (placed : image[place]? = some (computeWord destination computation jump)) :
    step? image ⟨place, core⟩ = some (compute ⟨place, core⟩ destination computation jump) := by
  rw [step?, placed]
  exact congrArg some (execute_computeWord ⟨place, core⟩ destination computation jump listed)

/-- A jump goes where the address register points if its condition holds, and changes nothing
else. -/
theorem reaches_jump {place : Nat} (core : Core) {operand : Operand} {condition : Jump}
    (listed : .operand operand ∈ Computation.all)
    (placed : image[place]? =
      some (computeWord .nowhere (.operand operand) (some condition))) :
    Reaches image ⟨place, core⟩
      ⟨if condition.holds (operand.value core) then core.pointed.val else place + 1, core⟩ :=
  .step (step?_compute listed placed)

/-- An entry that goes on takes the counter behind its word and does what it performs. -/
theorem reaches_of_standsAt {place : Nat} (core : Core) {entry : Instruction}
    (placed : entry.StandsAt image binding place) (goesOn : entry.goesOn = true) :
    Reaches image ⟨place, core⟩ ⟨place + entry.size, core.perform binding entry⟩ := by
  cases entry with
  | value number => exact .step (step?_load placed)
  | symbol name => exact .step (step?_load placed)
  | compute destination computation jump =>
      rcases Bool.and_eq_true_iff.mp goesOn with ⟨noJump, listed⟩
      rw [Option.isNone_iff_eq_none] at noJump
      subst noJump
      exact .step (step?_compute (List.contains_iff_mem.mp listed) placed)
  | label name => exact .refl _
  | comment text => exact .refl _

/-- Placed code without jumps is run to its end. -/
theorem reaches_after {place : Nat} (core : Core) {code : Listing}
    (placed : Placed image binding place code) (goesOn : code.all Instruction.goesOn = true) :
    Reaches image ⟨place, core⟩ ⟨place + Listing.size code, core.after binding code⟩ := by
  induction code generalizing place core with
  | nil => exact .refl _
  | cons entry rest inductionHypothesis =>
      rw [List.all_cons, Bool.and_eq_true_iff] at goesOn
      rw [Listing.size_cons, ← Nat.add_assoc]
      exact (reaches_of_standsAt core placed.1 goesOn.1).trans
        (inductionHypothesis _ placed.2 goesOn.2)

end Processor
end Hack
end HackToolchain
