import HackToolchain.Proofs.Hack.Grammar

namespace HackToolchain
namespace Hack

/-!
# Words decoded

The word of a compute instruction does not name what it computes.  It holds switches, and what comes out
of the arithmetic unit under these is for the unit to say.  For each computation that can be written it
is what the computation denotes, in arithmetic that wraps at the size of a word, and nothing else in the
word has a part in it: the switches, the destination and the jump are read back from bits of their own.

A computation that cannot be written has a word too, but the unit need not be able to do it.  So what is
said here is about those that are read from text.
-/

/-- The jump that a word asks for.  The bits stand for a result below zero, zero, and above it. -/
def Jump.ofWord? (word : UInt16) : Option Jump :=
  match bitAt word 2, bitAt word 1, bitAt word 0 with
  | false, false, false => none
  | false, false, true => some .greater
  | false, true, false => some .equal
  | false, true, true => some .greaterOrEqual
  | true, false, false => some .less
  | true, false, true => some .notEqual
  | true, true, false => some .lessOrEqual
  | true, true, true => some .always

/-- Reading the jump off a word gives back the instruction's. -/
theorem Jump.ofWord?_computeWord (destination : Destination) (computation : Computation)
    (jump : Option Jump) : Jump.ofWord? (computeWord destination computation jump) = jump := by
  rw [Jump.ofWord?, bitAt_computeWord_of_lt _ _ _ 2 (by decide),
    bitAt_computeWord_of_lt _ _ _ 1 (by decide), bitAt_computeWord_of_lt _ _ _ 0 (by decide)]
  cases jump with
  | none => rfl
  | some jump => cases jump <;> rfl

/-- The registers and the cell that is pointed to, for an arithmetic unit on its own. -/
def Core.ofContents (data address memory : UInt16) : Core := ⟨address, data, fun _ => memory⟩

/-- A computation is read from text and encoded with any destination and any jump.  Whatever the data
register, the address register and the memory cell hold, the arithmetic unit under the switches of the
word makes of them what the computation denotes.  The word gives back the destination and the jump. -/
theorem encoded_computation_denotes {text : String} {computation : Computation}
    (read : Computation.ofText text = .ok computation) (destination : Destination)
    (jump : Option Jump) (table : SymbolTable) :
    ∃ word, (Instruction.compute destination computation jump).encode table = (some word, table) ∧
      (∀ data address memory : UInt16,
        (Control.ofWord word).output data
            (if (Control.ofWord word).fromMemory then memory else address) =
          computation.value (Core.ofContents data address memory)) ∧
      Destination.ofWord word = destination ∧ Jump.ofWord? word = jump := by
  have listed : computation ∈ Computation.all := (Computation.text_of_ofText read).1
  refine ⟨computeWord destination computation jump, rfl, fun data address memory => ?_,
    Destination.ofWord_computeWord _ _ _, Jump.ofWord?_computeWord _ _ _⟩
  rw [Control.ofWord_computeWord]
  exact Control.output_ofComputation (Core.ofContents data address memory) computation listed

/-- A difference below zero wraps, and is stored and jumped on. -/
theorem encoded_difference_denotes :
    Computation.ofText "M-D" = .ok (.binary .m .minus .d) ∧
    ∃ word, (Instruction.compute ⟨true, false, true⟩ (.binary .m .minus .d) (some .less)).encode
        .initial = (some word, .initial) ∧
      (Control.ofWord word).output 5
        (if (Control.ofWord word).fromMemory then 3 else 100) = 65534 ∧
      Destination.ofWord word = ⟨true, false, true⟩ ∧ Jump.ofWord? word = some .less := by
  have read : Computation.ofText "M-D" = .ok (.binary .m .minus .d) := by decide +kernel
  rcases encoded_computation_denotes read ⟨true, false, true⟩ (some .less) .initial with
    ⟨word, encoded, denotes, destination, jump⟩
  exact ⟨read, word, encoded, denotes 5 100 3, destination, jump⟩

end Hack
end HackToolchain
