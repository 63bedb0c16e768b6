import HackToolchain.Proofs.Vm.Translation

namespace HackToolchain
namespace Vm

open Hack Code

/-!
# Segments in memory

A `push` and a `pop` name a segment and an index.  Which cell is meant can be told by numbers alone,
without the code that looks for it: four segments begin where a base points to, the temporary segment
and the bases themselves lie at fixed cells, static variables lie where the assembler has put them, and
a constant lies nowhere.  What a push and a pop leave of memory can be told without the code too.

The code has two shapes.  A short index is added to the base in steps of one.  A longer one goes
through the data register, so a pop has to find its cell before it takes the word off the stack, and
the cell's address waits in scratch meanwhile.  Scratch is all that tells the two shapes apart
afterwards.
-/

/-! ## Cells -/

/-- The cell that holds the base of a segment, for the segments that begin where one points to. -/
def Segment.base? : Segment -> Option Address
  | .«local» => some 1
  | .argument => some 2
  | .this => some 3
  | .that => some 4
  | _ => none

/-- The cell that an index of a segment means, if it means one.  Addresses start over behind the last
cell.  `static` gives the addresses of the static variables. -/
def Segment.address? (static : UInt16 -> UInt16) (memory : Memory) (segment : Segment)
    (index : UInt16) : Option Address :=
  match segment.base? with
  | some base => some (Fin.ofNat 32768 ((memory base).toNat + index.toNat))
  | none =>
    match segment with
    | .static => some (Address.ofWord (static index))
    | .temp => if index.toNat < 8 then some (Fin.ofNat 32768 (5 + index.toNat)) else none
    | .pointer => if index.toNat < 2 then some (Fin.ofNat 32768 (3 + index.toNat)) else none
    | _ => none

/-- The word that an index of a segment means: what is in the cell, or the index itself for a
constant. -/
def Segment.word? (static : UInt16 -> UInt16) (memory : Memory) (segment : Segment)
    (index : UInt16) : Option UInt16 :=
  match segment with
  | .constant => some index
  | segment => (segment.address? static memory index).map memory

/-- Whether the code of a pop keeps an address in scratch. -/
def Segment.usesScratch (segment : Segment) (index : UInt16) : Bool :=
  segment.base?.isSome && decide (2 < index.toNat)

/-! ## Memory behind a push and behind a pop -/

/-- Memory with a word pushed: the word lies where the stack ended, and the stack ends behind it. -/
def afterPush (memory : Memory) (word : UInt16) : Memory := fun cell =>
  if cell = 0 then memory 0 + 1
  else if cell = Address.ofWord (memory 0) then word
  else memory cell

/-- Memory with a word popped: the stack ends where the word lay, and the target holds the word. -/
def afterPop (memory : Memory) (target : Address) : Memory := fun cell =>
  if cell = 0 then memory 0 - 1
  else if cell = target then memory (Address.ofWord (memory 0 - 1))
  else memory cell

/-- A stack that does not end in the cell of its own pointer is pushed to as expected. -/
theorem pushed_eq_afterPush {memory : Memory} (apart : Address.ofWord (memory 0) ≠ 0)
    (word : UInt16) : pushed memory word = afterPush memory word := by
  funext cell
  unfold pushed afterPush
  by_cases stack : cell = 0
  · rw [if_pos stack, stack, Function.update_self, Function.update_of_ne apart.symm]
  · rw [if_neg stack, Function.update_of_ne stack]
    by_cases here : cell = Address.ofWord (memory 0)
    · rw [if_pos here, here, Function.update_self]
    · rw [if_neg here, Function.update_of_ne here]

/-- Moving the stack pointer changes no word on the stack. -/
theorem top_eq {memory : Memory} (apart : Address.ofWord (memory 0 - 1) ≠ 0) :
    top memory = memory (Address.ofWord (memory 0 - 1)) := by
  rw [top, lowered, Function.update_of_ne apart]

/-- The word on top is moved to the target, if neither of the two cells is the stack pointer's. -/
theorem update_lowered_eq_afterPop {memory : Memory} {target : Address}
    (apart : Address.ofWord (memory 0 - 1) ≠ 0) (notStack : target ≠ 0) :
    Function.update (lowered memory) target (top memory) = afterPop memory target := by
  funext cell
  rw [top_eq apart]
  unfold lowered afterPop
  by_cases stack : cell = 0
  · rw [if_pos stack, stack, Function.update_of_ne notStack.symm, Function.update_self]
  · rw [if_neg stack]
    by_cases here : cell = target
    · rw [if_pos here, here, Function.update_self]
    · rw [if_neg here, Function.update_of_ne here, Function.update_of_ne stack]

/-- What is in scratch makes no difference to a pop, but in scratch itself. -/
theorem afterPop_update_scratch {memory : Memory} {target cell : Address} (word : UInt16)
    (stackApart : Address.ofWord (memory 0 - 1) ≠ 13) (seen : cell = 13 -> target = 13) :
    afterPop (Function.update memory 13 word) target cell = afterPop memory target cell := by
  have stack : Function.update memory 13 word 0 = memory 0 := Function.update_of_ne (by decide) _ _
  unfold afterPop
  rw [stack, Function.update_of_ne stackApart]
  by_cases scratch : cell = 13
  · rw [if_pos (scratch.trans (seen scratch).symm), if_pos (scratch.trans (seen scratch).symm)]
  · rw [Function.update_of_ne scratch]

/-! ## The code of both commands -/

theorem ofWord_add (base index : UInt16) :
    Address.ofWord (base + index) = Fin.ofNat 32768 (base.toNat + index.toNat) := by
  apply Fin.ext
  simp only [Address.ofWord, Fin.val_ofNat, UInt16.toNat_add]
  omega

section Segments

variable {binding : String -> UInt16} {memory : Memory} {scope : Scope} {segment : Segment}
  {index : UInt16} {target : Address}

/-- The code looks for a cell where the cell is. -/
theorem meansAt_of_address (standard : Standard binding)
    (found : segment.address? (fun number => binding (scope.staticSymbol number)) memory index =
      some target) :
    ∃ address, Address.ofWord address = target ∧
      MeansAt binding memory address (cell scope segment index) := by
  have based {symbol : String} {base : Address} (bound : Address.ofWord (binding symbol) = base)
      (same : Fin.ofNat 32768 ((memory base).toNat + index.toNat) = target) :
      ∃ address, Address.ofWord address = target ∧
        MeansAt binding memory address (.indirect symbol index) := by
    refine ⟨memory base + index, (ofWord_add _ _).trans same, ?_⟩
    rw [MeansAt, bound]
  have fixed {symbol : String} {base : UInt16} (bound : binding symbol = base + index)
      (same : Fin.ofNat 32768 (base.toNat + index.toNat) = target) :
      ∃ address, Address.ofWord address = target ∧
        MeansAt binding memory address (.direct symbol) :=
    ⟨base + index, (ofWord_add _ _).trans same, bound.symm⟩
  cases segment with
  | «local» => exact based (by rw [standard "LCL" 1 (by decide)]; rfl) (Option.some.inj found)
  | argument => exact based (by rw [standard "ARG" 2 (by decide)]; rfl) (Option.some.inj found)
  | this => exact based (by rw [standard "THIS" 3 (by decide)]; rfl) (Option.some.inj found)
  | that => exact based (by rw [standard "THAT" 4 (by decide)]; rfl) (Option.some.inj found)
  | constant => cases found
  | static => exact ⟨_, Option.some.inj found, rfl⟩
  | temp =>
      rcases Option.ite_none_right_eq_some.mp found with ⟨short, same⟩
      exact fixed (temp_bound standard short) (Option.some.inj same)
  | pointer =>
      rcases Option.ite_none_right_eq_some.mp found with ⟨short, same⟩
      exact fixed (pointer_bound standard short) (Option.some.inj same)

/-- The code of a push pushes the word that is meant. -/
theorem memory_push_segment (standard : Standard binding) (core : Core) {word : UInt16}
    (small : segment = .constant -> index.toNat ≤ maxInteger)
    (apart : Address.ofWord (core.memory 0) ≠ 0)
    (means : segment.word? (fun number => binding (scope.staticSymbol number)) core.memory index =
      some word) :
    (core.after binding (Code.push (cell scope segment index))).memory =
      afterPush core.memory word := by
  rw [← pushed_eq_afterPush apart]
  have located (means : (segment.address? (fun number => binding (scope.staticSymbol number))
      core.memory index).map core.memory = some word) :
      (core.after binding (Code.push (cell scope segment index))).memory =
        pushed core.memory word := by
    rcases Option.map_eq_some_iff.mp means with ⟨target, found, rfl⟩
    rcases meansAt_of_address standard found with ⟨address, rfl, meansAt⟩
    exact memory_push standard core meansAt
  cases segment with
  | constant =>
      cases means
      exact memory_push_literal standard core (small rfl)
  | _ => exact located means

/-- A cell that is found through a base belongs to a segment with one. -/
theorem base?_isSome_of_indirect {base : String} {offset : UInt16}
    (indirect : cell scope segment index = .indirect base offset) :
    segment.base?.isSome = true ∧ offset = index := by
  cases segment with
  | constant => cases indirect
  | static => cases indirect
  | temp => cases indirect
  | pointer => cases indirect
  | _ =>
      cases indirect
      exact ⟨rfl, rfl⟩

/-- The code of a pop moves the word on top to the cell that is meant.  Only scratch may be different
afterwards, and only behind a long index and if it is not meant itself. -/
theorem memory_pop_segment (standard : Standard binding) (core : Core)
    (high : 256 ≤ (Address.ofWord (core.memory 0 - 1)).val)
    (found : segment.address? (fun number => binding (scope.staticSymbol number)) core.memory index =
      some target)
    (notStack : target ≠ 0) {other : Address}
    (seen : other = 13 -> segment.usesScratch index = true -> target = 13) :
    (core.after binding (Code.pop (cell scope segment index))).memory other =
      afterPop core.memory target other := by
  have low {machine : Address} (small : machine.val < 256) :
      Address.ofWord (core.memory 0 - 1) ≠ machine := by
    intro same
    rw [same] at high
    omega
  have apart : Address.ofWord (core.memory 0 - 1) ≠ 0 := low (by decide)
  rcases meansAt_of_address standard found with ⟨address, rfl, means⟩
  cases place : cell scope segment index with
  | literal word =>
      rw [place] at means
      exact absurd means id
  | direct symbol =>
      rw [place, MeansAt] at means
      subst means
      rw [memory_pop_direct standard, update_lowered_eq_afterPop apart notStack]
  | indirect base offset =>
      have notPointer := base_ne_stackPointer standard place
      rcases base?_isSome_of_indirect place with ⟨hasBase, rfl⟩
      rw [place, MeansAt] at means
      by_cases short : offset.toNat ≤ maxSteps
      · have unmoved : lowered core.memory (Address.ofWord (binding base)) =
            core.memory (Address.ofWord (binding base)) := Function.update_of_ne notPointer _ _
        rw [memory_pop_short standard core base short, unmoved, ← means,
          update_lowered_eq_afterPop apart notStack]
      · -- The stack is popped from a memory that has the address in scratch.
        rcases memory_pop_long standard core base short with ⟨waiting, leads, code⟩
        have scratch : segment.usesScratch offset = true := by
          rw [Segment.usesScratch, hasBase, Bool.true_and]
          exact decide_eq_true (Nat.lt_of_not_le short)
        have stack : Function.update core.memory 13 waiting 0 = core.memory 0 :=
          Function.update_of_ne (by decide) _ _
        rw [code, leads, ← means, update_lowered_eq_afterPop (by rw [stack]; exact apart) notStack,
          afterPop_update_scratch waiting (low (by decide)) fun same => seen same scratch]

end Segments

/-! ## Commands of translated programs -/

/-- A push without faults means a word. -/
theorem Segment.exists_word {segment : Segment} {index : UInt16}
    (faultless : (Command.push segment index).fault? = none) (static : UInt16 -> UInt16)
    (memory : Memory) : ∃ word, segment.word? static memory index = some word := by
  have inside {size : UInt16} {fault : Fault}
      (faultless : (if index < size then none else some fault) = none) :
      index.toNat < size.toNat := by
    by_cases short : index < size
    · exact short
    · rw [if_neg short] at faultless
      cases faultless
  cases segment with
  | temp => exact ⟨_, congrArg (Option.map memory) (if_pos (inside faultless))⟩
  | pointer => exact ⟨_, congrArg (Option.map memory) (if_pos (inside faultless))⟩
  | _ => exact ⟨_, rfl⟩

/-- A pop without faults means a cell. -/
theorem Segment.exists_address {segment : Segment} {index : UInt16}
    (faultless : (Command.pop segment index).fault? = none) (static : UInt16 -> UInt16)
    (memory : Memory) : ∃ target, segment.address? static memory index = some target := by
  have notConstant : segment ≠ .constant := by
    rintro rfl
    cases faultless
  have pushes : (Command.push segment index).fault? = none := by
    cases segment with
    | constant => exact absurd rfl notConstant
    | _ => exact faultless
  rcases Segment.exists_word pushes static memory with ⟨word, means⟩
  have located (means : (segment.address? static memory index).map memory = some word) :
      ∃ target, segment.address? static memory index = some target := by
    rcases Option.map_eq_some_iff.mp means with ⟨target, found, -⟩
    exact ⟨target, found⟩
  cases segment with
  | constant => exact absurd rfl notConstant
  | _ => exact located means

theorem exists_image {code : Listing} (fits : (assemble code).toOption.isSome = true) :
    ∃ image, assemble code = .ok image := by
  cases assembled : assemble code with
  | ok image => exact ⟨image, rfl⟩
  | error error =>
      rw [assembled] at fits
      cases fits

section Programs

variable {image : List UInt16} {options : Options} {files : List File} {code : Listing}

/-- Take a program that is translated and assembled, and any state of the processor at the code of a
push or a pop.  The code of a push goes on to the next command with the word that is meant on top of
the stack, and nothing else changed.  That of a pop goes on with the word from the top in the cell that
is meant, and nothing else changed but scratch behind a long index.  Whether the index is short makes
no other difference. -/
theorem processor_accesses_segments (translated : translate options files = .ok code)
    (assembled : assemble code = .ok image) {position : Nat} {site : Site}
    (found : (Site.ofFiles files)[position]? = some site) (core : Core) :
    let static := fun index => binding code (site.scope.staticSymbol index)
    (∀ segment index, site.command = .push segment index ->
      (segment = .constant -> index.toNat ≤ maxInteger) ->
      256 ≤ (Address.ofWord (core.memory 0)).val ->
      ∃ word last, segment.word? static core.memory index = some word ∧
        Processor.Reaches image ⟨place options (Site.ofFiles files) position, core⟩
          ⟨place options (Site.ofFiles files) (position + 1), last⟩ ∧
        last.memory = afterPush core.memory word) ∧
    (∀ segment index, site.command = .pop segment index ->
      256 ≤ (Address.ofWord (core.memory 0 - 1)).val ->
      ∃ target, segment.address? static core.memory index = some target ∧
        (target ≠ 0 ->
          ∃ last, Processor.Reaches image ⟨place options (Site.ofFiles files) position, core⟩
              ⟨place options (Site.ofFiles files) (position + 1), last⟩ ∧
            ∀ cell, (cell = 13 -> segment.usesScratch index = true -> target = 13) ->
              last.memory cell = afterPop core.memory target cell)) := by
  intro static
  rcases translate_ok translated with ⟨rfl, faultless⟩
  have standard : Standard (binding (listing options (Site.ofFiles files))) :=
    fun _ _ listed => binding_predefined assembled listed
  have valid := faultless site (List.mem_of_getElem? found)
  rcases placed_code (placed_of_assemble assembled) found with ⟨label, here, behind⟩
  constructor
  · intro segment index command small high
    rw [command] at here behind valid
    rcases Segment.exists_word valid static core.memory with ⟨word, means⟩
    have apart : Address.ofWord (core.memory 0) ≠ 0 := by
      intro same
      rw [same] at high
      exact absurd high (by decide)
    have reached := Processor.reaches_after core here (goesOn_push _)
    rw [← behind] at reached
    exact ⟨word, _, means, reached, memory_push_segment standard core small apart means⟩
  · intro segment index command high
    rw [command] at here behind valid
    rcases Segment.exists_address valid static core.memory with ⟨target, means⟩
    refine ⟨target, means, fun notStack => ?_⟩
    have reached := Processor.reaches_after core here (goesOn_pop _)
    rw [← behind] at reached
    exact ⟨_, reached, fun cell seen => memory_pop_segment standard core high means notStack seen⟩

/-- Both commands reach the same cell, because addresses start over behind the last one: the fourth
local variable lies there if the base is the largest word, and so does the sixth cell of an array that
begins three cells in front of the end. -/
theorem processor_accesses_wrapped_cells :
    let files := [File.ofCommands "A" [.push .«local» 3, .pop .that 5]]
    let sites := Site.ofFiles files
    let code := listing {} sites
    let memory : Memory := fun cell => if cell = 0 then 257 else if cell = 1 then 65535 else
      if cell = 2 then 77 else if cell = 4 then 32765 else if cell = 256 then 9 else 0
    translate {} files = .ok code ∧ ∃ image, assemble code = .ok image ∧
      (∃ last, Processor.Reaches image ⟨place {} sites 0, ⟨0, 0, memory⟩⟩ ⟨place {} sites 1, last⟩ ∧
        last.memory 0 = 258 ∧ last.memory 257 = 77 ∧ last.memory 2 = 77) ∧
      ∃ last, Processor.Reaches image ⟨place {} sites 1, ⟨0, 0, memory⟩⟩ ⟨place {} sites 2, last⟩ ∧
        last.memory 0 = 256 ∧ last.memory 256 = 9 ∧ last.memory 2 = 9 := by
  intro files sites code memory
  have translated : translate {} files = .ok code := by decide +kernel
  rcases exists_image (show (assemble code).toOption.isSome = true by decide +kernel) with
    ⟨image, assembled⟩
  refine ⟨translated, image, assembled, ?_, ?_⟩
  · have first : sites[0]? = some ⟨.ofFile "A", .push .«local» 3, 1⟩ := rfl
    rcases processor_accesses_segments translated assembled first ⟨0, 0, memory⟩ with ⟨pushes, -⟩
    rcases pushes .«local» 3 rfl nofun (by decide) with ⟨word, last, means, reached, after⟩
    have same : word = 77 := Option.some.inj (means.symm.trans (by decide))
    rw [same] at after
    refine ⟨last, reached, ?_⟩
    rw [after]
    decide
  · have second : sites[1]? = some ⟨.ofFile "A", .pop .that 5, 2⟩ := rfl
    rcases processor_accesses_segments translated assembled second ⟨0, 0, memory⟩ with ⟨-, pops⟩
    rcases pops .that 5 rfl (by decide) with ⟨target, means, moves⟩
    have same : target = 2 := Option.some.inj (means.symm.trans (by decide))
    subst same
    rcases moves (by decide) with ⟨last, reached, after⟩
    exact ⟨last, reached, (after 0 nofun).trans (by decide), (after 256 nofun).trans (by decide),
      (after 2 nofun).trans (by decide)⟩

end Programs

end Vm
end HackToolchain
