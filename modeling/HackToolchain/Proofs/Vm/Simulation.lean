import HackToolchain.Proofs.Vm.Idioms
import HackToolchain.Proofs.Vm.Layout

namespace HackToolchain
namespace Vm

open Hack Code Machine

/-!
# Running translated programs

The processor that runs the image of a program does what the stack machine does with the program.
The two have agreeing memories, apart from the scratch cells that only the processor has, and the
processor's counter is at the place of the stack machine's position.  A step of the stack machine is
then some steps of the processor, after which both are in this relation again.

The stack machine's memory is looked at cell by cell.  Nothing is assumed of where the stack and the
segments lie: they may overlap each other and the cells that hold their addresses, because the code
of a command reads and writes the cells in the order in which the stack machine does.
-/

/-! ## Memories that agree -/

/-- Two memories that differ at most in scratch. -/
def Agrees (memory hack : Memory) : Prop :=
  ∀ cell, isScratch cell = false -> memory cell = hack cell

namespace Agrees

variable {memory hack after : Memory} {address value : UInt16}

theorem get (agrees : Agrees memory hack)
    (done : Machine.get address memory = some (value, after)) :
    hack (Address.ofWord address) = value ∧ Agrees after hack := by
  rcases get_eq_some.mp done with ⟨inside, rfl, rfl⟩
  exact ⟨(agrees _ inside).symm, agrees⟩

theorem put (agrees : Agrees memory hack)
    (done : Machine.put address value memory = some ((), after)) :
    Agrees after (Function.update hack (Address.ofWord address) value) := by
  rcases put_eq_some.mp done with ⟨-, rfl⟩
  intro cell inside
  by_cases same : cell = Address.ofWord address
  · rw [same, Function.update_self, Function.update_self]
  · rw [Function.update_of_ne same, Function.update_of_ne same]
    exact agrees cell inside

/-- Writing to scratch goes unnoticed. -/
theorem scratch (agrees : Agrees memory hack) {cell : Address} (outside : isScratch cell = true)
    (value : UInt16) : Agrees memory (Function.update hack cell value) := by
  intro other inside
  rw [Function.update_of_ne]
  · exact agrees other inside
  · intro same
    rw [same, outside] at inside
    cases inside

theorem push (agrees : Agrees memory hack)
    (done : Machine.push value memory = some ((), after)) : Agrees after (pushed hack value) := by
  simp only [Machine.push, Work.andThen_eq_some] at done
  rcases done with ⟨_, _, pointed, ⟨⟩, _, stored, _, _, moved, raised⟩
  rcases agrees.get pointed with ⟨rfl, agrees⟩
  rcases (agrees.put stored).get moved with ⟨rfl, agrees⟩
  exact agrees.put raised

theorem pop (agrees : Agrees memory hack)
    (done : Machine.pop memory = some (value, after)) :
    value = top hack ∧ Agrees after (lowered hack) := by
  simp only [Machine.pop, Work.andThen_eq_some] at done
  rcases done with ⟨_, _, pointed, ⟨⟩, _, lowers, _, _, moved, found⟩
  rcases agrees.get pointed with ⟨rfl, agrees⟩
  rcases (agrees.put lowers).get moved with ⟨rfl, agrees⟩
  rcases agrees.get found with ⟨rfl, agrees⟩
  exact ⟨rfl, agrees⟩

/-- The stack machine's zeros are the processor's. -/
theorem pushZeros {count : Nat} (agrees : Agrees memory hack)
    (done : Program.pushZeros count memory = some ((), after)) :
    Agrees after (pushedZeros hack count) := by
  induction count generalizing memory hack with
  | zero =>
      rcases Work.pure_eq_some.mp done with ⟨-, rfl⟩
      exact agrees
  | succ count inductionHypothesis =>
      rcases Work.andThen_eq_some.mp done with ⟨⟨⟩, _, first, rest⟩
      exact inductionHypothesis (agrees.push first) rest

theorem onTop {result : UInt16 -> UInt16} (agrees : Agrees memory hack)
    (done : Machine.onTop result memory = some ((), after)) :
    Agrees after (pushed (lowered hack) (result (Vm.top hack))) := by
  rcases Work.andThen_eq_some.mp done with ⟨word, _, popped, replaced⟩
  rcases agrees.pop popped with ⟨rfl, agrees⟩
  exact agrees.push replaced

theorem onTopTwo {result : UInt16 -> UInt16 -> UInt16} (agrees : Agrees memory hack)
    (done : Machine.onTopTwo result memory = some ((), after)) :
    Agrees after (pushed (lowered (lowered hack)) (result (Vm.top (lowered hack)) (Vm.top hack))) := by
  rcases Work.andThen_eq_some.mp done with ⟨second, _, popped, rest⟩
  rcases agrees.pop popped with ⟨rfl, agrees⟩
  rcases Work.andThen_eq_some.mp rest with ⟨first, _, popped, replaced⟩
  rcases agrees.pop popped with ⟨rfl, agrees⟩
  exact agrees.push replaced

end Agrees

/-! ## Programs in memory -/

/-- The program that translated sites stand for: a position's address is the place of its code, and
a static variable's cell is what its symbol is bound to. -/
def Program.ofSites (options : Options) (sites : List Site) (binding : String -> UInt16) :
    Program where
  sites := sites
  bootstrapped := options.bootstrap
  static scope index := binding (scope.staticSymbol index)
  address position := UInt16.ofNat (place options sites position)

/-- What an image has to do with a program.  The last two facts say that the program was read from
sources and found to be without faults. -/
structure Loaded (image : List UInt16) (binding : String -> UInt16) (options : Options)
    (sites : List Site) : Prop where
  standard : Standard binding
  placed : Placed image binding 0 (listing options sites)
  small : ∀ site ∈ sites, ∀ value, site.command = .push .constant value ->
    value.toNat ≤ maxInteger
  few : ∀ site ∈ sites, ∀ name arguments, site.command = .call name arguments ->
    (arguments + 5).toNat ≤ maxInteger

/-- The processor is at the code of the stack machine's next command, with a memory that differs in
scratch only. -/
structure Matches (options : Options) (sites : List Site) (state : State)
    (processor : Processor) : Prop where
  counter : processor.counter = place options sites state.position
  agrees : Agrees state.memory processor.core.memory

/-! ## Cells of segments -/

/-- What a cell of a segment is in memory. -/
def MeansAt (binding : String -> UInt16) (memory : Memory) (address : UInt16) : Cell -> Prop
  | .indirect base offset => address = memory (Address.ofWord (binding base)) + offset
  | .direct symbol => address = binding symbol
  | .literal _ => False

section Segments

variable {binding : String -> UInt16} {options : Options} {sites : List Site}
  {memory hack after : Memory}

theorem temp_bound (standard : Standard binding) {index : UInt16} (short : index < 8) :
    binding (tempSymbol index) = tempBase + index := by
  have listed : ∀ number : Fin 8, ("R" ++ toString (5 + number.val), UInt16.ofNat (5 + number.val)) ∈
      SymbolTable.predefined := by
    decide
  have number : index.toNat < 8 := short
  rw [tempSymbol, standard _ _ (listed ⟨index.toNat, number⟩)]
  apply UInt16.toNat_inj.mp
  simp only [tempBase, UInt16.toNat_add, UInt16.toNat_ofNat']
  rfl

theorem pointer_bound (standard : Standard binding) {index : UInt16} (short : index < 2) :
    binding (pointerSymbol index) = thisBase + index := by
  have number : index.toNat < 2 := short
  rcases (by omega : index.toNat = 0 ∨ index.toNat = 1) with zero | one
  · rw [UInt16.toNat_inj.mp (zero.trans rfl : index.toNat = (0 : UInt16).toNat)]
    exact standard "THIS" 3 (by decide)
  · rw [UInt16.toNat_inj.mp (one.trans rfl : index.toNat = (1 : UInt16).toNat)]
    exact standard "THAT" 4 (by decide)

/-- The stack machine finds a segment's cell where the code looks for it. -/
theorem meansAt_of_locate (standard : Standard binding) (agrees : Agrees memory hack)
    {scope : Scope} {segment : Segment} {index address : UInt16}
    (located : (Program.ofSites options sites binding).locate scope segment index memory =
      some (address, after)) :
    MeansAt binding hack address (cell scope segment index) ∧ Agrees after hack := by
  have based {base : UInt16} {symbol : String} (bound : binding symbol = base)
      (read : (do return (← get base) + index : Work UInt16) memory = some (address, after)) :
      MeansAt binding hack address (.indirect symbol index) ∧ Agrees after hack := by
    rcases Work.andThen_eq_some.mp read with ⟨word, _, found, done⟩
    rcases agrees.get found with ⟨rfl, agrees⟩
    rcases Work.pure_eq_some.mp done with ⟨rfl, rfl⟩
    exact ⟨by rw [MeansAt, bound], agrees⟩
  cases segment with
  | «local» => exact based (standard "LCL" 1 (by decide)) located
  | argument => exact based (standard "ARG" 2 (by decide)) located
  | this => exact based (standard "THIS" 3 (by decide)) located
  | that => exact based (standard "THAT" 4 (by decide)) located
  | constant =>
      rcases Work.ofOption_eq_some.mp located with ⟨found, -⟩
      cases found
  | static =>
      rcases Work.pure_eq_some.mp located with ⟨rfl, rfl⟩
      exact ⟨rfl, agrees⟩
  | temp =>
      rcases Work.ofOption_eq_some.mp located with ⟨found, rfl⟩
      by_cases short : index < 8
      · rw [if_pos short] at found
        cases found
        exact ⟨(temp_bound standard short).symm, agrees⟩
      · rw [if_neg short] at found
        cases found
  | pointer =>
      rcases Work.ofOption_eq_some.mp located with ⟨found, rfl⟩
      by_cases short : index < 2
      · rw [if_pos short] at found
        cases found
        exact ⟨(pointer_bound standard short).symm, agrees⟩
      · rw [if_neg short] at found
        cases found

/-- Code that pushes a cell pushes what is in it. -/
theorem memory_push (standard : Standard binding) (core : Core) {address : UInt16} {cell : Cell}
    (means : MeansAt binding core.memory address cell) :
    (core.after binding (Code.push cell)).memory =
      pushed core.memory (core.memory (Address.ofWord address)) := by
  cases cell with
  | indirect base offset =>
      rw [memory_push_indirect standard, means]
  | direct symbol =>
      rw [memory_push_direct standard, means]
  | literal value => exact absurd means id

/-- No segment's first cell is kept where the stack pointer is. -/
theorem base_ne_stackPointer (standard : Standard binding) {scope : Scope} {segment : Segment}
    {index offset : UInt16} {base : String}
    (indirect : cell scope segment index = .indirect base offset) :
    Address.ofWord (binding base) ≠ 0 := by
  cases segment with
  | «local» => cases indirect; rw [standard "LCL" 1 (by decide)]; decide
  | argument => cases indirect; rw [standard "ARG" 2 (by decide)]; decide
  | this => cases indirect; rw [standard "THIS" 3 (by decide)]; decide
  | that => cases indirect; rw [standard "THAT" 4 (by decide)]; decide
  | constant => cases indirect
  | static => cases indirect
  | temp => cases indirect
  | pointer => cases indirect

/-- Code that pushes a cell does what the stack machine does. -/
theorem agrees_push (standard : Standard binding) (core : Core)
    (agrees : Agrees memory core.memory) {scope : Scope} {segment : Segment}
    {index value : UInt16} {fetched : Memory}
    (small : segment = .constant -> index.toNat ≤ maxInteger)
    (fetches : (Program.ofSites options sites binding).fetch scope segment index memory =
      some (value, fetched))
    (pushes : Machine.push value fetched = some ((), after)) :
    Agrees after (core.after binding (Code.push (cell scope segment index))).memory := by
  have located (fetches : (do get (← (Program.ofSites options sites binding).locate scope segment
        index) : Work UInt16) memory = some (value, fetched)) :
      Agrees after (core.after binding (Code.push (cell scope segment index))).memory := by
    rcases Work.andThen_eq_some.mp fetches with ⟨address, _, locates, reads⟩
    rcases meansAt_of_locate standard agrees locates with ⟨means, agrees⟩
    rcases agrees.get reads with ⟨rfl, agrees⟩
    rw [memory_push standard core means]
    exact agrees.push pushes
  cases segment with
  | constant =>
      rcases Work.pure_eq_some.mp fetches with ⟨rfl, rfl⟩
      change Agrees after (core.after binding (Code.push (.literal index))).memory
      rw [memory_push_literal standard core (small rfl)]
      exact agrees.push pushes
  | _ => exact located fetches

/-- Code that pops to a cell does what the stack machine does.  If the address waits in scratch, the
word is popped from a memory that differs there. -/
theorem agrees_pop (standard : Standard binding) (core : Core)
    (agrees : Agrees memory core.memory) {scope : Scope} {segment : Segment}
    {index value address : UInt16} {popped located : Memory}
    (pops : Machine.pop memory = some (value, popped))
    (locates : (Program.ofSites options sites binding).locate scope segment index popped =
      some (address, located))
    (puts : put address value located = some ((), after)) :
    Agrees after (core.after binding (Code.pop (cell scope segment index))).memory := by
  rcases agrees.pop pops with ⟨rfl, lowers⟩
  rcases meansAt_of_locate standard lowers locates with ⟨means, lowers⟩
  cases place : cell scope segment index with
  | literal word =>
      rw [place] at means
      exact absurd means id
  | direct symbol =>
      rw [place, MeansAt] at means
      subst means
      rw [memory_pop_direct standard]
      exact lowers.put puts
  | indirect base offset =>
      have apart := base_ne_stackPointer standard place
      rw [place, MeansAt] at means
      by_cases short : offset.toNat ≤ maxSteps
      · rw [memory_pop_short standard core base short, ← means]
        exact lowers.put puts
      · rcases memory_pop_long standard core base short with ⟨waiting, leads, code⟩
        have same : Address.ofWord address = Address.ofWord waiting := by
          rw [means, leads, lowered, Function.update_of_ne apart]
        have differs := agrees.scratch (by decide : isScratch 13 = true) waiting
        rcases differs.pop pops with ⟨found, lowers⟩
        rcases meansAt_of_locate standard lowers locates with ⟨-, lowers⟩
        rw [code, ← same, ← found]
        exact lowers.put puts

end Segments

/-! ## Operations -/

section Operations

variable {image : List UInt16} {binding : String -> UInt16} {place : Nat} {memory after : Memory}

theorem reaches_binary (standard : Standard binding) (core : Core)
    (agrees : Agrees memory core.memory) {left right : Operand} {operator : Operator}
    {result : UInt16 -> UInt16 -> UInt16}
    (computes : ∀ core : Core, (Computation.binary left operator right).value
      ⟨lowered core.memory 0 - 1, top core.memory, lowered (lowered core.memory)⟩ =
        result (top (lowered core.memory)) (top core.memory))
    (goesOn : (Code.binary left operator right).all Instruction.goesOn = true)
    (placed : Placed image binding place (Code.binary left operator right))
    (done : onTopTwo result memory = some ((), after)) :
    ∃ last, Processor.Reaches image ⟨place, core⟩
        ⟨place + Listing.size (Code.binary left operator right), last⟩ ∧
      Agrees after last.memory := by
  refine ⟨_, Processor.reaches_after core placed goesOn, ?_⟩
  rw [memory_binary standard, computes core]
  exact agrees.onTopTwo done

theorem reaches_unary (standard : Standard binding) (core : Core)
    (agrees : Agrees memory core.memory) {operator : Operator} {result : UInt16 -> UInt16}
    (computes : ∀ core : Core, (Computation.unary operator .m).value
      ⟨core.memory 0 - 1, core.data, lowered core.memory⟩ = result (top core.memory))
    (goesOn : (Code.unary operator).all Instruction.goesOn = true)
    (placed : Placed image binding place (Code.unary operator))
    (done : onTop result memory = some ((), after)) :
    ∃ last, Processor.Reaches image ⟨place, core⟩
        ⟨place + Listing.size (Code.unary operator), last⟩ ∧ Agrees after last.memory := by
  refine ⟨_, Processor.reaches_after core placed goesOn, ?_⟩
  rw [memory_unary standard, computes core]
  exact agrees.onTop done

theorem reaches_comparison (standard : Standard binding) (core : Core)
    (agrees : Agrees memory core.memory) {condition : Jump} {label : String}
    {result : UInt16 -> UInt16 -> UInt16}
    (computes : ∀ first second, truth (condition.holds (first - second)) = result first second)
    (placed : Placed image binding place (Code.compare condition label))
    (done : onTopTwo result memory = some ((), after)) :
    ∃ last, Processor.Reaches image ⟨place, core⟩
        ⟨place + Listing.size (Code.compare condition label), last⟩ ∧
      Agrees after last.memory := by
  rcases reaches_compare standard core placed with ⟨last, reached, left⟩
  refine ⟨last, reached, ?_⟩
  rw [left, computes]
  exact agrees.onTopTwo done

/-- The code of an operation runs to its end and leaves the operation's result. -/
theorem reaches_operation (standard : Standard binding) (core : Core)
    (agrees : Agrees memory core.memory) {label : String} {operation : Operation}
    (placed : Placed image binding place (Code.operation label operation))
    (done : operate operation memory = some ((), after)) :
    ∃ last, Processor.Reaches image ⟨place, core⟩
        ⟨place + Listing.size (Code.operation label operation), last⟩ ∧
      Agrees after last.memory := by
  cases operation with
  | add =>
      exact reaches_binary standard core agrees (fun _ => UInt16.add_comm _ _) rfl placed done
  | sub => exact reaches_binary standard core agrees (fun _ => rfl) rfl placed done
  | neg => exact reaches_unary standard core agrees (fun _ => rfl) rfl placed done
  | eq => exact reaches_comparison standard core agrees (fun _ _ => rfl) placed done
  | gt => exact reaches_comparison standard core agrees (fun _ _ => rfl) placed done
  | lt => exact reaches_comparison standard core agrees (fun _ _ => rfl) placed done
  | and =>
      exact reaches_binary standard core agrees (fun _ => UInt16.and_comm _ _) rfl placed done
  | or =>
      exact reaches_binary standard core agrees (fun _ => UInt16.or_comm _ _) rfl placed done
  | not => exact reaches_unary standard core agrees (fun _ => rfl) rfl placed done

end Operations

/-! ## Where jumps go -/

section Targets

variable {image : List UInt16} {binding : String -> UInt16} {options : Options} {sites : List Site}

/-- A jump to a label goes to the label's position. -/
theorem place_of_labelPosition (placed : Placed image binding 0 (listing options sites))
    {scope : Scope} {label : String} {position : Nat}
    (found : (Program.ofSites options sites binding).labelPosition? scope label = some position) :
    (Address.ofWord (binding (scope.labelSymbol label))).val = place options sites position := by
  rcases Program.labelPosition?_eq_some found with ⟨site, here, command, context⟩
  rcases placed_code placed here with ⟨own, code, -⟩
  rw [command] at code
  rw [Scope.labelSymbol, ← context]
  exact code.label

/-- A call goes to where its function begins. -/
theorem place_of_functionPosition (placed : Placed image binding 0 (listing options sites))
    {name : String} {position : Nat}
    (found : (Program.ofSites options sites binding).functionPosition? name = some position) :
    (Address.ofWord (binding name)).val = place options sites position := by
  rcases Program.functionPosition?_eq_some found with ⟨site, locals, here, command⟩
  rcases placed_code placed here with ⟨own, code, -⟩
  rw [command] at code
  exact code.label

/-- Code that ends with a label ends where the label stands. -/
theorem placed_lastLabel {start : Nat} {code : Listing} {name : String}
    (placed : Placed image binding start (code ++ [.label name])) :
    (binding name).toNat = start + Listing.size (code ++ [.label name]) ∧
      start + Listing.size (code ++ [.label name]) < memorySize := by
  rw [Listing.size_append]
  exact placed.right.1

/-- The label of a call stands for the place behind it. -/
theorem address_behind_call (placed : Placed image binding 0 (listing options sites))
    {position : Nat} {site : Site} (found : sites[position]? = some site) {name : String}
    {arguments : UInt16} (calls : site.command = .call name arguments) :
    ∃ label, Placed image binding (place options sites position)
        (Code.call name arguments label) ∧
      addressWord (binding label) = UInt16.ofNat (place options sites (position + 1)) ∧
      place options sites (position + 1) < memorySize := by
  rcases placed_code placed found with ⟨label, here, next⟩
  rw [calls] at here next
  rcases placed_lastLabel here with ⟨bound, inside⟩
  change _ = place options sites position + Listing.size (Code.call name arguments label) at bound
  change place options sites position + Listing.size (Code.call name arguments label) < _ at inside
  change _ = _ + Listing.size (Code.call name arguments label) at next
  rw [← next] at bound inside
  refine ⟨label, here, ?_, inside⟩
  have small : (binding label).toNat ≤ maxInteger := by
    rw [bound]
    exact Nat.le_of_lt_succ inside
  rw [addressWord_eq small, ← bound, UInt16.ofNat_toNat]

/-- The code in front of a program ends with the label that its first function returns to. -/
theorem place_zero (placed : Placed image binding 0 (listing options sites))
    (bootstrapped : options.bootstrap = true) : place options sites 0 < memorySize := by
  have here : Placed image binding 0 (Draft.start options).listing.toList := by
    rcases Draft.prefix_listing options sites 0 with ⟨rest, whole⟩
    rw [← whole] at placed
    exact placed.left
  have code : (Draft.start options).listing.toList =
      Draft.remark options "bootstrap" ++
        Code.bootstrap (LabelNumbers.next ∅ (returnBase entryPoint)).1 := by
    unfold Draft.start
    rw [if_pos bootstrapped, Draft.toList_append]
    exact congrArg (· ++ _) (Draft.toList_note options _ _)
  change Listing.size (Draft.start options).listing.toList < _
  rw [code] at here ⊢
  unfold Code.bootstrap Code.call at here ⊢
  rw [← List.append_assoc, ← List.append_assoc] at here ⊢
  have last := placed_lastLabel here
  rw [Nat.zero_add] at last
  exact last.2

theorem ofWord_place {position : Nat} (inside : place options sites position < memorySize) :
    (Address.ofWord (UInt16.ofNat (place options sites position))).val =
      place options sites position := by
  have small : (UInt16.ofNat (place options sites position)).toNat =
      place options sites position :=
    UInt16.toNat_ofNat_of_lt (Nat.lt_trans inside (by decide))
  rw [Address.ofWord, Fin.val_ofNat, small]
  exact Nat.mod_eq_of_lt inside

/-- The address of the way back leads there. -/
theorem place_of_returnPosition (placed : Placed image binding 0 (listing options sites))
    {address : UInt16} {position : Nat}
    (found : (Program.ofSites options sites binding).returnPosition? address = some position) :
    (Address.ofWord address).val = place options sites position := by
  rcases Program.returnPosition?_eq_some found with ⟨returnPoint, rfl⟩
  have inside : place options sites position < memorySize := by
    cases position with
    | zero => exact place_zero placed returnPoint
    | succ position =>
        rcases Program.isReturnPoint_succ returnPoint with ⟨site, name, arguments, here, calls⟩
        rcases address_behind_call placed here calls with ⟨-, -, -, inside⟩
        exact inside
  exact ofWord_place inside

end Targets

/-! ## Calls and returns -/

section Calls

variable {binding : String -> UInt16} {options : Options} {sites : List Site}
  {memory hack after : Memory}

theorem Agrees.save (agrees : Agrees memory hack) {cell word : UInt16} {between : Memory}
    (reads : Machine.get cell memory = some (word, between))
    (pushes : Machine.push word between = some ((), after)) :
    Agrees after (saved hack (Address.ofWord cell)) := by
  rcases agrees.get reads with ⟨rfl, agrees⟩
  exact agrees.push pushes

theorem sub_sub_eq (word first second : UInt16) : word - first - second = word - (second + first) := by
  rw [UInt16.sub_eq_add_neg, UInt16.sub_eq_add_neg, UInt16.sub_eq_add_neg, UInt16.neg_add,
    UInt16.sub_eq_add_neg, UInt16.add_assoc, UInt16.add_comm (-first)]

/-- A call does to memory what the stack machine does when it enters a function. -/
theorem Agrees.enter (agrees : Agrees memory hack) {position next : Nat} {name : String}
    {arguments : UInt16}
    (done : (Program.ofSites options sites binding).enter position name arguments memory =
      some (next, after)) :
    Agrees after (based (framed hack (UInt16.ofNat (place options sites (position + 1))))
        arguments) ∧
      (Program.ofSites options sites binding).functionPosition? name = some next := by
  simp only [Program.enter, Work.andThen_eq_some] at done
  rcases done with ⟨⟨⟩, _, back, _, _, locals, ⟨⟩, _, localsSaved, _, _, argument, ⟨⟩, _,
    argumentSaved, _, _, this, ⟨⟩, _, thisSaved, _, _, that, ⟨⟩, _, thatSaved, _, _, stack, ⟨⟩, _,
    argumentSet, _, _, stackAgain, ⟨⟩, _, localsSet, found⟩
  have framed := ((((agrees.push back).save locals localsSaved).save argument argumentSaved).save
    this thisSaved).save that thatSaved
  rcases framed.get stack with ⟨rfl, framed⟩
  rw [sub_sub_eq] at argumentSet
  rcases (framed.put argumentSet).get stackAgain with ⟨rfl, based⟩
  rcases Work.ofOption_eq_some.mp found with ⟨entry, rfl⟩
  exact ⟨based.put localsSet, entry⟩

/-- Memories that agree while the frame and the way back wait in scratch. -/
structure Returning (memory hack : Memory) (frame back : UInt16) : Prop where
  agrees : Agrees memory hack
  frame : hack 13 = frame
  back : hack 14 = back

namespace Returning

variable {frame back : UInt16}

theorem put (returning : Returning memory hack frame back) {address value : UInt16}
    (done : Machine.put address value memory = some ((), after)) :
    Returning after (Function.update hack (Address.ofWord address) value) frame back := by
  rcases put_eq_some.mp done with ⟨inside, -⟩
  have kept {cell : Address} (outside : isScratch cell = true) :
      Function.update hack (Address.ofWord address) value cell = hack cell := by
    rw [Function.update_of_ne]
    intro same
    rw [← same, outside] at inside
    cases inside
  exact ⟨returning.agrees.put done, (kept (by decide)).trans returning.frame,
    (kept (by decide)).trans returning.back⟩

theorem get (returning : Returning memory hack frame back) {address value : UInt16}
    (done : Machine.get address memory = some (value, after)) :
    hack (Address.ofWord address) = value ∧ Returning after hack frame back := by
  rcases returning.agrees.get done with ⟨found, agrees⟩
  exact ⟨found, agrees, returning.frame, returning.back⟩

theorem pop (returning : Returning memory hack frame back) {value : UInt16}
    (done : Machine.pop memory = some (value, after)) :
    value = top hack ∧ Returning after (lowered hack) frame back := by
  rcases returning.agrees.pop done with ⟨found, agrees⟩
  have kept {cell : Address} (other : cell ≠ 0) : lowered hack cell = hack cell := by
    rw [lowered, Function.update_of_ne other]
  exact ⟨found, agrees, (kept (by decide)).trans returning.frame,
    (kept (by decide)).trans returning.back⟩

theorem restore (returning : Returning memory hack frame back) {distance cell word : UInt16}
    {between : Memory} (reads : Machine.get (frame - distance) memory = some (word, between))
    (puts : Machine.put cell word between = some ((), after)) :
    Returning after (restored distance hack (Address.ofWord cell)) frame back := by
  rcases returning.get reads with ⟨rfl, returning⟩
  rw [restored, returning.frame]
  exact returning.put puts

end Returning

/-- The first two things that a return reads wait in scratch. -/
theorem returning_prepared (agrees : Agrees memory hack) {frame back : UInt16} {between : Memory}
    (reads : Machine.get localBase memory = some (frame, between))
    (readsBack : Machine.get (frame - 5) between = some (back, after)) :
    Returning after (prepared hack) frame back := by
  rcases agrees.get reads with ⟨rfl, agrees⟩
  rcases (agrees.scratch (by decide : isScratch 13 = true) (hack 1)).get readsBack with
    ⟨found, agrees⟩
  refine ⟨?agrees, ?frame, ?back⟩
  case agrees => exact agrees.scratch (by decide : isScratch 14 = true) _
  case frame =>
    rw [prepared, Function.update_of_ne (by decide), Function.update_self]
    rfl
  case back =>
    rw [prepared, Function.update_self, Function.update_self]
    exact found

/-- A return does to memory what the stack machine does when it leaves a function, and the way back
that the processor keeps in scratch is the stack machine's. -/
theorem Agrees.leave (agrees : Agrees memory hack) {next : Nat}
    (done : (Program.ofSites options sites binding).leave memory = some (next, after)) :
    Agrees after (returned hack) ∧
      (Program.ofSites options sites binding).returnPosition? (returned hack 14) = some next := by
  simp only [Program.leave, Work.andThen_eq_some] at done
  rcases done with ⟨frame, _, reads, back, _, readsBack, result, _, pops, _, _, argument, ⟨⟩, _,
    answers, _, _, argumentAgain, ⟨⟩, _, stackSet, _, _, that, ⟨⟩, _, thatSet, _, _, this, ⟨⟩, _,
    thisSet, _, _, argumentOld, ⟨⟩, _, argumentSet, _, _, locals, ⟨⟩, _, localsSet, found⟩
  have prepared := returning_prepared agrees reads readsBack
  rcases prepared.pop pops with ⟨rfl, popped⟩
  rcases popped.get argument with ⟨rfl, popped⟩
  rcases (popped.put answers).get argumentAgain with ⟨rfl, answered⟩
  have answered := answered.put stackSet
  have restored := (((answered.restore that thatSet).restore this thisSet).restore argumentOld
    argumentSet).restore locals localsSet
  rcases Work.ofOption_eq_some.mp found with ⟨wayBack, rfl⟩
  rw [← restored.back] at wayBack
  exact ⟨restored.agrees, wayBack⟩

end Calls

/-! ## Steps -/

section Steps

variable {image : List UInt16} {binding : String -> UInt16} {options : Options} {sites : List Site}

/-- Code that goes on to the next position and leaves what the command leaves. -/
theorem matches_next {position : Nat} {core last : Core} {after : Memory} {code : Listing}
    (reached : Processor.Reaches image ⟨place options sites position, core⟩
      ⟨place options sites position + Listing.size code, last⟩)
    (next : place options sites (position + 1) =
      place options sites position + Listing.size code)
    (agrees : Agrees after last.memory) :
    ∃ last, Processor.Reaches image ⟨place options sites position, core⟩ last ∧
      Matches options sites ⟨position + 1, after⟩ last :=
  ⟨_, reached, next.symm, agrees⟩

/-- What the stack machine does with one command, the processor does with its code. -/
theorem simulates_execute (loaded : Loaded image binding options sites) {position next : Nat}
    {site : Site} (found : sites[position]? = some site) (core : Core) {memory after : Memory}
    (agrees : Agrees memory core.memory)
    (done : (Program.ofSites options sites binding).execute position site memory =
      some (next, after)) :
    ∃ last, Processor.Reaches image ⟨place options sites position, core⟩ last ∧
      Matches options sites ⟨next, after⟩ last := by
  have standard := loaded.standard
  have member := List.mem_of_getElem? found
  rcases placed_code loaded.placed found with ⟨label, code, behind⟩
  cases command : site.command with
  | arithmetic operation =>
      simp only [Program.execute, command, Work.andThen_eq_some] at done
      rcases done with ⟨⟨⟩, _, operates, done⟩
      rcases Work.pure_eq_some.mp done with ⟨rfl, rfl⟩
      rw [command] at code behind
      rcases reaches_operation standard core agrees code operates with ⟨last, reached, agrees⟩
      exact matches_next reached behind agrees
  | push segment index =>
      simp only [Program.execute, command, Work.andThen_eq_some] at done
      rcases done with ⟨value, _, fetches, ⟨⟩, _, pushes, done⟩
      rcases Work.pure_eq_some.mp done with ⟨rfl, rfl⟩
      rw [command] at code behind
      have small (constant : segment = .constant) : index.toNat ≤ maxInteger :=
        loaded.small site member index (by rw [command, constant])
      exact matches_next (Processor.reaches_after core code (goesOn_push _)) behind
        (agrees_push standard core agrees small fetches pushes)
  | pop segment index =>
      simp only [Program.execute, command, Work.andThen_eq_some] at done
      rcases done with ⟨value, _, pops, address, _, locates, ⟨⟩, _, puts, done⟩
      rcases Work.pure_eq_some.mp done with ⟨rfl, rfl⟩
      rw [command] at code behind
      exact matches_next (Processor.reaches_after core code (goesOn_pop _)) behind
        (agrees_pop standard core agrees pops locates puts)
  | label name =>
      simp only [Program.execute, command] at done
      rcases Work.pure_eq_some.mp done with ⟨rfl, rfl⟩
      rw [command] at code behind
      exact matches_next (Processor.reaches_after core code rfl) behind agrees
  | goto target =>
      simp only [Program.execute, command] at done
      rcases Work.ofOption_eq_some.mp done with ⟨target, rfl⟩
      rw [command] at code
      exact ⟨_, reaches_goTo core code, place_of_labelPosition loaded.placed target, agrees⟩
  | ifGoto target =>
      simp only [Program.execute, command, Work.andThen_eq_some] at done
      rcases done with ⟨word, _, pops, done⟩
      rcases agrees.pop pops with ⟨rfl, popped⟩
      rw [command] at code behind
      have reached := (Processor.reaches_after core code.left rfl).trans (reaches_jumpTo _ code.right)
      rw [after_popData standard] at reached
      by_cases zero : top core.memory = 0
      · rw [if_pos zero] at done
        rcases Work.pure_eq_some.mp done with ⟨rfl, rfl⟩
        have stays : Jump.notEqual.holds (top core.memory) = false := by
          rw [zero]
          rfl
        rw [if_neg (Bool.eq_false_iff.mp stays)] at reached
        exact ⟨_, reached, behind.symm, popped⟩
      · rw [if_neg zero] at done
        rcases Work.ofOption_eq_some.mp done with ⟨target, rfl⟩
        have jumps : Jump.notEqual.holds (top core.memory) = true := bne_iff_ne.mpr zero
        rw [if_pos jumps] at reached
        exact ⟨_, reached, place_of_labelPosition loaded.placed target, popped⟩
  | function name locals =>
      simp only [Program.execute, command, Work.andThen_eq_some] at done
      rcases done with ⟨⟨⟩, _, pushes, done⟩
      rcases Work.pure_eq_some.mp done with ⟨rfl, rfl⟩
      rw [command] at code behind
      refine matches_next (Processor.reaches_after core code (goesOn_enter _ _)) behind ?_
      change Agrees _ (core.after binding (Code.enter name locals)).memory
      rw [memory_enter standard]
      exact agrees.pushZeros pushes
  | call name arguments =>
      simp only [Program.execute, command] at done
      rcases agrees.enter done with ⟨entered, target⟩
      rcases address_behind_call loaded.placed found command with ⟨label, code, back, -⟩
      rcases reaches_call standard core (loaded.few site member name arguments command) code with
        ⟨last, reached, memory⟩
      rw [back] at memory
      exact ⟨_, reached, place_of_functionPosition loaded.placed target, memory ▸ entered⟩
  | «return» =>
      simp only [Program.execute, command] at done
      rcases agrees.leave done with ⟨left, target⟩
      rw [command] at code
      have shared := placed_sharedReturn loaded.placed member command
      have jumped := reaches_goTo core code
      rw [shared.label] at jumped
      rcases reaches_sharedReturn standard
        { core with address := addressWord (binding returnSymbol) } shared with
        ⟨last, reached, memory⟩
      exact ⟨_, jumped.trans reached, place_of_returnPosition loaded.placed target, memory ▸ left⟩

/-- One step of the stack machine is some steps of the processor. -/
theorem simulates_step (loaded : Loaded image binding options sites) {state next : State}
    {processor : Processor} (same : Matches options sites state processor)
    (step : (Program.ofSites options sites binding).step? state = some next) :
    ∃ last, Processor.Reaches image processor last ∧ Matches options sites next last := by
  rcases state with ⟨position, memory⟩
  rcases processor with ⟨counter, core⟩
  rcases same with ⟨rfl, agrees⟩
  rcases Option.bind_eq_some_iff.mp step with ⟨site, found, step⟩
  rcases Option.bind_eq_some_iff.mp step with ⟨⟨position, after⟩, done, step⟩
  cases step
  exact simulates_execute loaded found core agrees done

/-- Runs of the stack machine are runs of the processor. -/
theorem simulates_run (loaded : Loaded image binding options sites) {count : Nat}
    {state final : State} {processor : Processor} (same : Matches options sites state processor)
    (run : (Program.ofSites options sites binding).run? count state = some final) :
    ∃ last, Processor.Reaches image processor last ∧ Matches options sites final last := by
  induction count generalizing state processor with
  | zero =>
      cases run
      exact ⟨processor, .refl _, same⟩
  | succ count inductionHypothesis =>
      rcases Option.bind_eq_some_iff.mp run with ⟨next, step, rest⟩
      rcases simulates_step loaded same step with ⟨between, first, same⟩
      rcases inductionHypothesis same rest with ⟨last, second, same⟩
      exact ⟨last, first.trans second, same⟩

end Steps

end Vm
end HackToolchain
