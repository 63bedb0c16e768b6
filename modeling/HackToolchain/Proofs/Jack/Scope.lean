import HackToolchain.Jack.Code
import HackToolchain.Proofs.Attempts
import Mathlib.Algebra.GroupWithZero.Nat

namespace HackToolchain
namespace Jack

/-!
# What scopes number

A declaration that a scope takes counts for its kind alone, and gives its name the cell that the count
stood at.  All other names keep what they stand for.  So no two names of a scope share a cell.
-/

theorem VariableCounts.get_set (counts : VariableCounts) (kind other : VariableKind)
    (count : UInt16) :
    (counts.set kind count).get other = if other = kind then count else counts.get other := by
  cases kind <;> cases other <;> rfl

namespace Scope

variable {scope after : Scope}

theorem define_eq_ok {name type : String} {kind : VariableKind} {declared : Variable} :
    scope.define name type kind = .ok (declared, after) ↔
      (scope.count kind).toNat + 1 < UInt16.size ∧ declared = ⟨type, kind, scope.count kind⟩ ∧
        after = ⟨scope.bindings.insert name declared,
          scope.counts.set kind (scope.count kind + 1)⟩ := by
  unfold define
  by_cases room : (scope.count kind).toNat + 1 < UInt16.size
  · rw [if_pos room]
    constructor
    · intro same
      cases same
      exact ⟨room, rfl, rfl⟩
    · rintro ⟨-, rfl, rfl⟩
      rfl
  · rw [if_neg room]
    constructor
    · intro same
      cases same
    · rintro ⟨enough, -⟩
      exact absurd enough room

/-- A step of `defineAll` is a definition whose variable is not looked at. -/
theorem defined {name type : String} {kind : VariableKind}
    (done : (scope.define name type kind).map Prod.snd = .ok after) :
    scope.define name type kind = .ok (⟨type, kind, scope.count kind⟩, after) := by
  cases result : scope.define name type kind with
  | error error =>
      rw [result] at done
      cases done
  | ok pair =>
      rcases pair with ⟨declared, last⟩
      rw [result] at done
      cases done
      rw [(define_eq_ok.mp result).2.1]

/-! ## Counts -/

theorem count_define {name type : String} {kind : VariableKind} {declared : Variable}
    (done : scope.define name type kind = .ok (declared, after)) (other : VariableKind) :
    (after.count other).toNat = (scope.count other).toNat + if other = kind then 1 else 0 := by
  rcases define_eq_ok.mp done with ⟨room, -, rfl⟩
  change ((scope.counts.set kind (scope.count kind + 1)).get other).toNat = _
  rw [VariableCounts.get_set]
  by_cases same : other = kind
  · subst same
    rw [if_pos rfl, if_pos rfl, UInt16.toNat_add]
    exact Nat.mod_eq_of_lt room
  · rw [if_neg same, if_neg same]
    rfl

/-! ## Cells -/

theorem get?_empty (name : String) : Scope.empty.get? name = none := Std.TreeMap.getElem?_emptyc

theorem get?_define {name type : String} {kind : VariableKind} {declared : Variable}
    (done : scope.define name type kind = .ok (declared, after)) (other : String) :
    after.get? other =
      if name = other then some ⟨type, kind, scope.count kind⟩ else scope.get? other := by
  rcases define_eq_ok.mp done with ⟨-, rfl, rfl⟩
  change (scope.bindings.insert name _)[other]? = _
  rw [Std.TreeMap.getElem?_insert]
  simp only [Std.LawfulEqCmp.compare_eq_iff_eq]
  rfl

/-- Variables of a kind have cells below its count, and different names have different cells. -/
structure Numbered (scope : Scope) : Prop where
  below : ∀ name declared, scope.get? name = some declared ->
    declared.index < scope.count declared.kind
  distinct : ∀ name other first second, scope.get? name = some first ->
    scope.get? other = some second -> first.kind = second.kind -> first.index = second.index ->
    name = other

namespace Numbered

theorem empty : Scope.empty.Numbered := by
  refine ⟨?_, ?_⟩
  · intro name declared found
    rw [get?_empty] at found
    cases found
  · intro name other first second found
    rw [get?_empty] at found
    cases found

theorem define {name type : String} {kind : VariableKind} {declared : Variable}
    (numbered : scope.Numbered) (done : scope.define name type kind = .ok (declared, after)) :
    after.Numbered := by
  have counted := count_define done
  have looked := get?_define done
  have old {other : String} {found : Variable} (here : scope.get? other = some found) :
      found.index < scope.count found.kind := numbered.below other found here
  refine ⟨?_, ?_⟩
  · intro other found here
    have grown := counted found.kind
    rw [looked] at here
    rw [UInt16.lt_iff_toNat_lt, grown]
    split at here
    · cases here
      rw [if_pos rfl]
      exact Nat.lt_succ_self _
    · exact Nat.lt_of_lt_of_le (UInt16.lt_iff_toNat_lt.mp (old here)) (Nat.le_add_right _ _)
  · intro one two first second hereOne hereTwo kinds indices
    rw [looked] at hereOne hereTwo
    split at hereOne <;> split at hereTwo
    · next sameOne sameTwo => exact sameOne.symm.trans sameTwo
    · cases hereOne
      have less := old hereTwo
      rw [← kinds, ← indices] at less
      exact absurd less (UInt16.lt_irrefl _)
    · cases hereTwo
      have less := old hereOne
      rw [kinds, indices] at less
      exact absurd less (UInt16.lt_irrefl _)
    · exact numbered.distinct one two first second hereOne hereTwo kinds indices

end Numbered

end Scope

/-! ## The scopes of subroutines -/

/-- The names that a subroutine declares by its kind. -/
def receiverNames : SubroutineKind -> List String
  | .method => ["this"]
  | .constructor => []
  | .function => []

/-- The scope of a subroutine is made in three steps. -/
theorem subroutineScope_eq_ok {className : String} {routine : Subroutine} {scope : Scope}
    (done : Code.subroutineScope className routine = .ok scope) :
    ∃ methods parameters,
      Scope.empty.defineAll .argument className (receiverNames routine.kind) = .ok methods ∧
      routine.parameters.foldlM (fun scope parameter =>
        scope.defineAll .argument parameter.type.text [parameter.name]) methods = .ok parameters ∧
      routine.locals.foldlM (fun scope declared =>
        scope.defineAll .«local» declared.type.text declared.names) parameters = .ok scope := by
  rcases bind_eq_ok.mp done with ⟨methods, first, more⟩
  rcases bind_eq_ok.mp more with ⟨parameters, second, third⟩
  refine ⟨methods, parameters, ?_, second, third⟩
  cases kind : routine.kind with
  | _ =>
      rw [kind] at first
      exact first

end Jack
end HackToolchain
