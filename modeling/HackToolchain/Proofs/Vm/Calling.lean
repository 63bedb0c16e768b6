import HackToolchain.Proofs.Vm.Translation

namespace HackToolchain
namespace Vm

open Hack Code

/-!
# What a call changes

A call pushes a frame of five words and lets the callee's segments lie around it.  The return of the
callee finds the frame through the base of its local variables, wherever the stack pointer is by
then.  So a caller can tell what it gets back without knowing what the callee has done, as long as
the callee has left its two bases and the five words of the frame alone.

Everything is told cell by cell.  `Grown` is what pushing words makes of memory, and the frame is a
case of it.  The routine that all returns share reads each of the frame's words before it writes any
cell that the word could be in; without arguments the result overwrites the first word of the frame,
which has been read by then.
-/

/-! ## Addresses -/

theorem val_ofWord {word : UInt16} (small : word.toNat < 32768) :
    (Address.ofWord word).val = word.toNat := by
  rw [Address.ofWord, Fin.val_ofNat]
  exact Nat.mod_eq_of_lt small

theorem toNat_add_small {base offset : UInt16} (small : base.toNat + offset.toNat < 32768) :
    (base + offset).toNat = base.toNat + offset.toNat := by
  rw [UInt16.toNat_add]
  exact Nat.mod_eq_of_lt (Nat.lt_trans small (by decide))

theorem toNat_sub_small {base offset : UInt16} (small : offset.toNat ≤ base.toNat) :
    (base - offset).toNat = base.toNat - offset.toNat :=
  UInt16.toNat_sub_of_le _ _ small

/-! ## Pushing -/

/-- Memory after words were pushed from an address on: the words lie there, the stack pointer is
behind them, and nothing else is changed. -/
structure Grown (before after : Memory) (base : UInt16) (words : List UInt16) : Prop where
  stack : after 0 = base + UInt16.ofNat words.length
  pushed : ∀ index word, words[index]? = some word ->
    after (Address.ofWord (base + UInt16.ofNat index)) = word
  others : ∀ cell : Address, cell ≠ 0 ->
    (cell.val < base.toNat ∨ base.toNat + words.length ≤ cell.val) -> after cell = before cell

namespace Grown

variable {before after : Memory} {base : UInt16} {words : List UInt16}

theorem nil (stack : before 0 = base) : Grown before before base [] := by
  refine ⟨?_, nofun, fun _ _ _ => rfl⟩
  rw [stack]
  exact (UInt16.add_zero base).symm

/-- The cell of a pushed word. -/
theorem val_cell {index : Nat} (small : base.toNat + index < 32768) :
    (Address.ofWord (base + UInt16.ofNat index)).val = base.toNat + index := by
  have number : (UInt16.ofNat index).toNat = index :=
    UInt16.toNat_ofNat_of_lt (show index < 65536 by omega)
  have sum : (base + UInt16.ofNat index).toNat = base.toNat + index := by
    rw [toNat_add_small (by rw [number]; exact small), number]
  rw [val_ofWord (by rw [sum]; exact small), sum]

theorem push (grown : Grown before after base words) (positive : 0 < base.toNat)
    (room : base.toNat + words.length < 32768) (word : UInt16) :
    Grown before (Vm.pushed after word) base (words ++ [word]) := by
  have top := val_cell room
  have apart : Address.ofWord (base + UInt16.ofNat words.length) ≠ 0 := by
    intro same
    rw [same] at top
    change 0 = _ at top
    omega
  have kept (cell : Address) (notStack : cell ≠ 0)
      (notTop : cell ≠ Address.ofWord (base + UInt16.ofNat words.length)) :
      Vm.pushed after word cell = after cell := by
    rw [Vm.pushed, grown.stack, Function.update_of_ne notStack, Function.update_of_ne notTop]
  refine ⟨?stack, ?pushed, ?others⟩
  case stack =>
    rw [Vm.pushed, grown.stack, Function.update_self, Function.update_of_ne apart.symm, grown.stack,
      List.length_append, List.length_singleton, UInt16.ofNat_add, UInt16.add_assoc]
    rfl
  case pushed =>
    intro index found present
    rcases Nat.lt_or_ge index words.length with inside | outside
    · rw [List.getElem?_append_left inside] at present
      have cell := val_cell (show base.toNat + index < 32768 by omega)
      rw [kept, grown.pushed index found present]
      · intro same
        rw [same] at cell
        change 0 = _ at cell
        omega
      · intro same
        rw [same, top] at cell
        omega
    · rw [List.getElem?_append_right outside] at present
      rcases List.getElem?_eq_some_iff.mp present with ⟨last, rfl⟩
      rw [List.length_singleton] at last
      have same : index = words.length := by omega
      subst same
      simp only [Nat.sub_self, List.getElem_cons_zero]
      rw [Vm.pushed, grown.stack, Function.update_of_ne apart, Function.update_self]
  case others =>
    intro cell notStack outside
    rw [List.length_append, List.length_singleton] at outside
    rw [kept cell notStack, grown.others cell notStack (by omega)]
    intro same
    rw [same, top] at outside
    omega

/-- Saving a cell below the stack pushes what the cell held at first. -/
theorem save (grown : Grown before after base words) (positive : 0 < base.toNat)
    (room : base.toNat + words.length < 32768) {cell : Address} (notStack : cell ≠ 0)
    (below : cell.val < base.toNat) :
    Grown before (saved after cell) base (words ++ [before cell]) := by
  rw [saved, grown.others cell notStack (.inl below)]
  exact grown.push positive room _

end Grown

/-- A frame is five words on the stack. -/
theorem grown_framed {memory : Memory} {base : UInt16} (stack : memory 0 = base)
    (above : 256 ≤ base.toNat) (below : base.toNat ≤ 32000) (back : UInt16) :
    Grown memory (framed memory back) base
      [back, memory 1, memory 2, memory 3, memory 4] := by
  have positive : 0 < base.toNat := by omega
  have room (count : Nat) (few : count ≤ 5) : base.toNat + count < 32768 := by omega
  have low (cell : Address) (small : cell.val < 256) : cell.val < base.toNat := by omega
  have first := (Grown.nil stack).push positive (room 0 (by decide)) back
  have second := first.save positive (room 1 (by decide)) (by decide : (1 : Address) ≠ 0)
    (low 1 (by decide))
  have third := second.save positive (room 2 (by decide)) (by decide : (2 : Address) ≠ 0)
    (low 2 (by decide))
  have fourth := third.save positive (room 3 (by decide)) (by decide : (3 : Address) ≠ 0)
    (low 3 (by decide))
  exact fourth.save positive (room 4 (by decide)) (by decide : (4 : Address) ≠ 0)
    (low 4 (by decide))

/-! ## Entering -/

/-- The frame of a call in memory: the way back, and the caller's segments. -/
structure Frame (caller memory : Memory) (base back : UInt16) : Prop where
  back : memory (Address.ofWord base) = back
  locals : memory (Address.ofWord (base + 1)) = caller 1
  argument : memory (Address.ofWord (base + 2)) = caller 2
  this : memory (Address.ofWord (base + 3)) = caller 3
  that : memory (Address.ofWord (base + 4)) = caller 4

/-- What a call has done to memory when its function is entered.  The stack ended at `base`. -/
structure Entered (caller memory : Memory) (base count back : UInt16) : Prop where
  stack : memory 0 = base + 5
  locals : memory 1 = base + 5
  argument : memory 2 = base - count
  frame : Frame caller memory base back
  below : ∀ cell : Address, cell.val < base.toNat -> cell ≠ 0 -> cell ≠ 1 -> cell ≠ 2 ->
    memory cell = caller cell

theorem entered_based {caller : Memory} {base : UInt16} (stack : caller 0 = base)
    (above : 256 ≤ base.toNat) (below : base.toNat ≤ 32000) (count back : UInt16) :
    Entered caller (based (framed caller back) count) base count back := by
  have grown := grown_framed stack above below back
  have finish : framed caller back 0 = base + 5 := grown.stack
  have kept (cell : Address) (notLocals : cell ≠ 1) (notArgument : cell ≠ 2) :
      based (framed caller back) count cell = framed caller back cell := by
    rw [based, Function.update_of_ne notLocals, Function.update_of_ne notArgument]
  have frame (index : Nat) (word : UInt16) (few : index < 5)
      (pushed : [back, caller 1, caller 2, caller 3, caller 4][index]? = some word) :
      based (framed caller back) count (Address.ofWord (base + UInt16.ofNat index)) = word := by
    have cell := Grown.val_cell (show base.toNat + index < 32768 by omega)
    have high (other : Address) (low : other.val < 256) :
        Address.ofWord (base + UInt16.ofNat index) ≠ other := by
      intro same
      rw [same] at cell
      omega
    rw [kept _ (high 1 (by decide)) (high 2 (by decide)), grown.pushed index word pushed]
  refine ⟨?stack, ?locals, ?argument, ⟨?back, frame 1 _ (by decide) rfl,
    frame 2 _ (by decide) rfl, frame 3 _ (by decide) rfl, frame 4 _ (by decide) rfl⟩, ?below⟩
  case stack => rw [kept 0 (by decide) (by decide), finish]
  case locals =>
    rw [based, Function.update_self, Function.update_of_ne (by decide), finish]
  case argument =>
    rw [based, Function.update_of_ne (by decide), Function.update_self, finish, ← sub_sub_eq]
    exact congrArg (· - count) (UInt16.add_sub_cancel _ _)
  case back =>
    have first := frame 0 back (by decide) rfl
    rwa [show base + UInt16.ofNat 0 = base from UInt16.add_zero base] at first
  case below =>
    intro cell inside notStack notLocals notArgument
    rw [kept cell notLocals notArgument, grown.others cell notStack (.inl inside)]

/-! ## Returning -/

section Restoring

variable {base : UInt16}

/-- A word of the frame, found from the base of the local variables, is copied to its cell. -/
theorem restored_self {memory : Memory} (scratch : memory 13 = base + 5)
    {distance offset : UInt16} (sum : offset + distance = 5) (cell : Address) :
    restored distance memory cell cell = memory (Address.ofWord (base + offset)) := by
  rw [restored, Function.update_self, scratch, ← sum, ← UInt16.add_assoc, UInt16.add_sub_cancel]

theorem restored_of_ne (distance : UInt16) (memory : Memory) {cell other : Address}
    (different : other ≠ cell) : restored distance memory cell other = memory other :=
  Function.update_of_ne different _ _

/-- All four segments are restored, because none of the cells written is read later. -/
theorem restored_frame {memory : Memory} (scratch : memory 13 = base + 5)
    (above : 256 ≤ base.toNat) (below : base.toNat ≤ 32000) :
    restoredSegments memory 1 = memory (Address.ofWord (base + 1)) ∧
      restoredSegments memory 2 = memory (Address.ofWord (base + 2)) ∧
      restoredSegments memory 3 = memory (Address.ofWord (base + 3)) ∧
      restoredSegments memory 4 = memory (Address.ofWord (base + 4)) := by
  have high {index : Nat} (few : index ≤ 5) (other : Address) (low : other.val < 256) :
      Address.ofWord (base + UInt16.ofNat index) ≠ other := by
    have cell := Grown.val_cell (show base.toNat + index < 32768 by omega)
    intro same
    rw [same] at cell
    omega
  have first : restored 1 memory 4 13 = base + 5 :=
    (restored_of_ne _ _ (by decide)).trans scratch
  have second : restored 2 (restored 1 memory 4) 3 13 = base + 5 :=
    (restored_of_ne _ _ (by decide)).trans first
  have third : restored 3 (restored 2 (restored 1 memory 4) 3) 2 13 = base + 5 :=
    (restored_of_ne _ _ (by decide)).trans second
  unfold restoredSegments
  refine ⟨?locals, ?argument, ?this, ?that⟩
  case locals =>
    have apart (other : Address) (low : other.val < 256) : Address.ofWord (base + 1) ≠ other :=
      high (by decide : 1 ≤ 5) other low
    rw [restored_self third (by decide : (1 : UInt16) + 4 = 5),
      restored_of_ne _ _ (apart 2 (by decide)), restored_of_ne _ _ (apart 3 (by decide)),
      restored_of_ne _ _ (apart 4 (by decide))]
  case argument =>
    have apart (other : Address) (low : other.val < 256) : Address.ofWord (base + 2) ≠ other :=
      high (by decide : 2 ≤ 5) other low
    rw [restored_of_ne _ _ (by decide : (2 : Address) ≠ 1),
      restored_self second (by decide : (2 : UInt16) + 3 = 5),
      restored_of_ne _ _ (apart 3 (by decide)), restored_of_ne _ _ (apart 4 (by decide))]
  case this =>
    have apart (other : Address) (low : other.val < 256) : Address.ofWord (base + 3) ≠ other :=
      high (by decide : 3 ≤ 5) other low
    rw [restored_of_ne _ _ (by decide : (3 : Address) ≠ 1),
      restored_of_ne _ _ (by decide : (3 : Address) ≠ 2),
      restored_self first (by decide : (3 : UInt16) + 2 = 5),
      restored_of_ne _ _ (apart 4 (by decide))]
  case that =>
    rw [restored_of_ne _ _ (by decide : (4 : Address) ≠ 1),
      restored_of_ne _ _ (by decide : (4 : Address) ≠ 2),
      restored_of_ne _ _ (by decide : (4 : Address) ≠ 3),
      restored_self scratch (by decide : (4 : UInt16) + 1 = 5)]

theorem restoredSegments_of_outside (memory : Memory) (cell : Address)
    (outside : cell.val = 0 ∨ 5 ≤ cell.val) : restoredSegments memory cell = memory cell := by
  have apart (segment : Address) (isSegment : 1 ≤ segment.val ∧ segment.val ≤ 4) :
      cell ≠ segment := by
    intro same
    rw [same] at outside
    omega
  unfold restoredSegments
  rw [restored_of_ne _ _ (apart 1 (by decide)), restored_of_ne _ _ (apart 2 (by decide)),
    restored_of_ne _ _ (apart 3 (by decide)), restored_of_ne _ _ (apart 4 (by decide))]

end Restoring

/-- The cells that a return writes in any case. -/
def isMachineCell (cell : Address) : Bool := cell.val < 5 || cell == 13 || cell == 14

/-- What a return has done to memory, given the memories at the call and in front of the return. -/
structure Returned (caller callee memory : Memory) (base count : UInt16) : Prop where
  stack : memory 0 = base - count + 1
  result : memory (Address.ofWord (base - count)) = callee (Address.ofWord (callee 0 - 1))
  locals : memory 1 = caller 1
  argument : memory 2 = caller 2
  this : memory 3 = caller 3
  that : memory 4 = caller 4
  others : ∀ cell, isMachineCell cell = false -> cell ≠ Address.ofWord (base - count) ->
    memory cell = callee cell

/-- What a callee has to leave alone: the bases of its segments and the frame.  Its stack ends
somewhere above the frame. -/
structure Kept (caller callee : Memory) (base count back : UInt16) : Prop where
  locals : callee 1 = base + 5
  argument : callee 2 = base - count
  frame : Frame caller callee base back
  above : base.toNat + 6 ≤ (callee 0).toNat
  below : (callee 0).toNat ≤ 32767

section Return

variable {caller callee : Memory} {base count back : UInt16}

theorem prepared_of_ne (memory : Memory) {cell : Address} (first : cell ≠ 13)
    (second : cell ≠ 14) : prepared memory cell = memory cell := by
  rw [prepared, Function.update_of_ne second, Function.update_of_ne first]

theorem prepared_frame (memory : Memory) : prepared memory 13 = memory 1 := by
  rw [prepared, Function.update_of_ne (by decide), Function.update_self]

/-- The way back is the first word of the frame. -/
theorem prepared_back (locals : callee 1 = base + 5) (frame : Frame caller callee base back)
    (apart : Address.ofWord base ≠ 13) : prepared callee 14 = back := by
  rw [prepared, Function.update_self, Function.update_self, locals, UInt16.add_sub_cancel,
    Function.update_of_ne apart, frame.back]

/-- The answer is moved to the first argument and the stack ends behind it. -/
theorem answered_cells {memory : Memory} {target : UInt16} (argument : memory 2 = target)
    (high : 256 ≤ (Address.ofWord target).val) (nonzero : Address.ofWord (memory 0 - 1) ≠ 0) :
    answered memory 0 = target + 1 ∧
      answered memory (Address.ofWord target) = memory (Address.ofWord (memory 0 - 1)) ∧
      ∀ cell, cell ≠ 0 -> cell ≠ Address.ofWord target -> answered memory cell = memory cell := by
  have apart (cell : Address) (low : cell.val < 256) : Address.ofWord target ≠ cell := by
    intro same
    rw [same] at high
    omega
  have base : lowered memory 2 = target := by
    rw [lowered, Function.update_of_ne (by decide), argument]
  unfold answered
  simp only [base]
  refine ⟨?stack, ?result, ?others⟩
  case stack =>
    rw [Function.update_self, Function.update_of_ne (apart 2 (by decide)).symm, base]
  case result =>
    rw [Function.update_of_ne (apart 0 (by decide)), Function.update_self, top, lowered,
      Function.update_of_ne nonzero]
  case others =>
    intro cell notStack notTarget
    rw [Function.update_of_ne notStack, Function.update_of_ne notTarget, lowered,
      Function.update_of_ne notStack]

/-- A callee that has left its bases and the frame alone returns to its caller. -/
theorem returned_of_kept (kept : Kept caller callee base count back)
    (room : 256 + count.toNat ≤ base.toNat) (below : base.toNat ≤ 32000) :
    Returned caller callee (returned callee) base count ∧ returned callee 14 = back := by
  have start : (Address.ofWord base).val = base.toNat := val_ofWord (by omega)
  have target : (Address.ofWord (base - count)).val = base.toNat - count.toNat := by
    rw [val_ofWord (by rw [toNat_sub_small (by omega)]; omega), toNat_sub_small (by omega)]
  have atTop : (Address.ofWord (callee 0 - 1)).val = (callee 0).toNat - 1 := by
    have one : (1 : UInt16).toNat = 1 := rfl
    have stackAbove := kept.above
    have stackBelow := kept.below
    rw [val_ofWord (by rw [toNat_sub_small (by omega)]; omega), toNat_sub_small (by omega), one]
  have high (cell other : Address) (above : 256 ≤ cell.val) (low : other.val < 256) :
      cell ≠ other := by
    intro same
    rw [same] at above
    omega
  have topHigh : 256 ≤ (Address.ofWord (callee 0 - 1)).val := by
    have stackAbove := kept.above
    omega
  have stack : prepared callee 0 = callee 0 := prepared_of_ne callee (by decide) (by decide)
  have argument : prepared callee 2 = base - count :=
    (prepared_of_ne callee (by decide) (by decide)).trans kept.argument
  rcases answered_cells argument (by omega) (by rw [stack]; exact high _ 0 topHigh (by decide)) with
    ⟨stackAfter, result, others⟩
  have low (cell : Address) (small : cell.val < 256) (notStack : cell ≠ 0) :
      answered (prepared callee) cell = prepared callee cell :=
    others cell notStack (high _ cell (by omega) small).symm
  have scratch : answered (prepared callee) 13 = base + 5 := by
    rw [low 13 (by decide) (by decide), prepared_frame, kept.locals]
  rcases restored_frame scratch (by omega) below with ⟨locals, argumentAfter, this, that⟩
  have frame (index : Nat) (positive : 0 < index) (few : index < 5) :
      answered (prepared callee) (Address.ofWord (base + UInt16.ofNat index)) =
        callee (Address.ofWord (base + UInt16.ofNat index)) := by
    have cell := Grown.val_cell (show base.toNat + index < 32768 by omega)
    rw [others _ (high _ 0 (by omega) (by decide)),
      prepared_of_ne callee (high _ 13 (by omega) (by decide)) (high _ 14 (by omega) (by decide))]
    intro same
    rw [same, target] at cell
    omega
  refine ⟨⟨?stack, ?result, ?locals, ?argument, ?this, ?that, ?others⟩, ?back⟩
  case stack => exact (restoredSegments_of_outside _ 0 (by decide)).trans stackAfter
  case result =>
    rw [returned, restoredSegments_of_outside _ _ (.inr (by omega)), result, stack,
      prepared_of_ne callee (high _ 13 topHigh (by decide)) (high _ 14 topHigh (by decide))]
  case locals => exact (locals.trans (frame 1 (by decide) (by decide))).trans kept.frame.locals
  case argument =>
    exact (argumentAfter.trans (frame 2 (by decide) (by decide))).trans kept.frame.argument
  case this => exact (this.trans (frame 3 (by decide) (by decide))).trans kept.frame.this
  case that => exact (that.trans (frame 4 (by decide) (by decide))).trans kept.frame.that
  case others =>
    intro cell other notTarget
    have different (machine : Address) (isMachine : isMachineCell machine = true) :
        cell ≠ machine := by
      intro same
      rw [same, isMachine] at other
      cases other
    have behind : 5 ≤ cell.val := by
      have notLow := Bool.eq_false_iff.mp (Bool.or_eq_false_iff.mp
        (Bool.or_eq_false_iff.mp other).1).1
      exact Nat.le_of_not_lt fun low => notLow (decide_eq_true low)
    rw [returned, restoredSegments_of_outside _ _ (.inr behind),
      others cell (different 0 (by decide)) notTarget,
      prepared_of_ne callee (different 13 (by decide)) (different 14 (by decide))]
  case back =>
    rw [returned, restoredSegments_of_outside _ 14 (by decide), low 14 (by decide) (by decide),
      prepared_back kept.locals kept.frame (high _ 13 (by omega) (by decide))]

end Return

/-! ## Calls of translated programs -/

section Programs

variable {image : List UInt16} {options : Options} {files : List File} {code : Listing}

/-- A call enters its function with the frame below it, and any return that finds its bases and the
frame as they were goes on behind the call with the caller's segments, the answer in place of the
arguments, and no other cell changed.  What happens in between may be anything. -/
theorem call_is_transparent (translated : translate options files = .ok code)
    (assembled : assemble code = .ok image) {position entry : Nat} {site callee : Site}
    {name : String} {count locals : UInt16}
    (found : (Site.ofFiles files)[position]? = some site) (calls : site.command = .call name count)
    (defined : (Site.ofFiles files)[entry]? = some callee)
    (begins : callee.command = .function name locals) (core : Core)
    (room : 256 + count.toNat ≤ (core.memory 0).toNat) (below : (core.memory 0).toNat ≤ 32000) :
    (∃ last, Processor.Reaches image ⟨place options (Site.ofFiles files) position, core⟩
        ⟨place options (Site.ofFiles files) entry, last⟩ ∧
      Entered core.memory last.memory (core.memory 0) count
        (UInt16.ofNat (place options (Site.ofFiles files) (position + 1)))) ∧
    ∀ (leaving : Nat) (returning : Site) (later : Core),
      (Site.ofFiles files)[leaving]? = some returning -> returning.command = .«return» ->
      Kept core.memory later.memory (core.memory 0) count
        (UInt16.ofNat (place options (Site.ofFiles files) (position + 1))) ->
      ∃ last, Processor.Reaches image ⟨place options (Site.ofFiles files) leaving, later⟩
          ⟨place options (Site.ofFiles files) (position + 1), last⟩ ∧
        Returned core.memory later.memory last.memory (core.memory 0) count := by
  rcases translate_ok translated with ⟨rfl, faultless⟩
  have standard : Standard (binding (listing options (Site.ofFiles files))) :=
    fun _ _ listed => binding_predefined assembled listed
  have placed := placed_of_assemble assembled
  have few : (count + 5).toNat ≤ maxInteger := by
    have none := faultless site (List.mem_of_getElem? found)
    rw [calls] at none
    exact few_of_fault? none
  rcases address_behind_call placed found calls with ⟨label, here, back, inside⟩
  constructor
  · rcases reaches_call standard core few here with ⟨last, reached, memory⟩
    rcases placed_code placed defined with ⟨own, there, -⟩
    rw [begins] at there
    rw [there.label] at reached
    refine ⟨last, reached, ?_⟩
    rw [memory, back]
    exact entered_based rfl (by omega) below count _
  · intro leaving returning later stands returns kept
    rcases placed_code placed stands with ⟨own, jump, -⟩
    rw [returns] at jump
    have shared := placed_sharedReturn placed (List.mem_of_getElem? stands) returns
    have jumped := reaches_goTo later jump
    rw [shared.label] at jumped
    rcases reaches_sharedReturn standard
      { later with address := addressWord (binding _ returnSymbol) } shared with
      ⟨last, reached, memory⟩
    rcases returned_of_kept kept room below with ⟨returned, wayBack⟩
    refine ⟨last, ?_, memory ▸ returned⟩
    rw [wayBack, ofWord_place inside] at reached
    exact jumped.trans reached

/-- A function without arguments answers seven.  The answer takes the place of the way back. -/
theorem call_answers_seven :
    let files := [File.ofCommands "A"
      [.call "A.seven" 0, .function "A.seven" 0, .push .constant 7, .«return»]]
    let code := listing {} (Site.ofFiles files)
    let back := UInt16.ofNat (place {} (Site.ofFiles files) 1)
    let caller : Memory := fun cell => if cell = 0 then 300 else 0
    let callee : Memory := fun cell => if cell = 0 then 306 else if cell = 1 then 305 else
      if cell = 2 then 300 else if cell = 300 then back else if cell = 305 then 7 else 0
    translate {} files = .ok code ∧ ∃ image, assemble code = .ok image ∧
      (∃ last, Processor.Reaches image ⟨0, ⟨0, 0, caller⟩⟩ last ∧ last.core.memory 300 = back) ∧
      ∃ last, Processor.Reaches image ⟨place {} (Site.ofFiles files) 3, ⟨0, 0, callee⟩⟩
          ⟨place {} (Site.ofFiles files) 1, last⟩ ∧
        last.memory 0 = 301 ∧ last.memory 300 = 7 := by
  intro files code back caller callee
  have translated : translate {} files = .ok code := by decide +kernel
  refine ⟨translated, ?_⟩
  cases assembled : assemble code with
  | error error =>
      have fits : (assemble code).toOption.isSome = true := by decide +kernel
      rw [assembled] at fits
      cases fits
  | ok image =>
      refine ⟨image, rfl, ?_⟩
      rcases call_is_transparent translated assembled
        (show (Site.ofFiles files)[0]? = some ⟨⟨"A", none⟩, .call "A.seven" 0, 1⟩ from rfl) rfl
        (show (Site.ofFiles files)[1]? = some ⟨⟨"A", none⟩, .function "A.seven" 0, 2⟩ from rfl) rfl
        ⟨0, 0, caller⟩ (by decide) (by decide) with ⟨⟨last, reached, entered⟩, returns⟩
      refine ⟨⟨_, reached, entered.frame.back⟩, ?_⟩
      have kept : Kept caller callee 300 0 back :=
        ⟨rfl, rfl, ⟨rfl, rfl, rfl, rfl, rfl⟩, by decide, by decide⟩
      rcases returns 3 ⟨⟨"A", some "A.seven"⟩, .«return», 4⟩ ⟨0, 0, callee⟩ rfl rfl kept with
        ⟨last, reached, returned⟩
      have stack : (300 : UInt16) - 0 + 1 = 301 := by decide
      have target : Address.ofWord (300 - 0) = 300 := by decide
      have atTop : Address.ofWord (callee 0 - 1) = 305 := by decide
      have answer : callee 305 = 7 := rfl
      refine ⟨last, reached, returned.stack.trans stack, ?_⟩
      rw [← target]
      exact returned.result.trans ((congrArg callee atTop).trans answer)

end Programs

end Vm
end HackToolchain
