import HackToolchain.Proofs.Jack.Scope
import Mathlib.Data.List.DropRight

namespace HackToolchain
namespace Jack

/-!
# Numbers of variables

One scope serves many subroutines.  It is cleared before each, and names may be declared again in
between, also for a variable of another kind.  What such a scope knows is told by the calls since it
was last cleared: the variables of a kind are numbered in the order of their declarations, a name means
the last of its declarations, and a cell that a name has left is not given to another one.

There is one limit.  Cells are numbered by words, and as long as fewer variables of a kind are declared
than there are words, every declaration succeeds.
-/

namespace Scope

/-- A call that changes a scope. -/
inductive Call where
  | define (name type : String) (kind : VariableKind)
  | clear
deriving DecidableEq, Repr

namespace Call

/-- Whether a call declares a variable of a kind. -/
def declares (kind : VariableKind) : Call -> Bool
  | .define _ _ other => kind == other
  | .clear => false

/-- Whether a call declares a name. -/
def names (name : String) : Call -> Bool
  | .define other _ _ => name == other
  | .clear => false

end Call

/-- The calls behind the last one that clears. -/
def sinceClear (calls : List Call) : List Call := calls.rtakeWhile (· ≠ .clear)

/-- The number of variables of a kind that have been declared since the scope was last cleared. -/
def declared (kind : VariableKind) (calls : List Call) : Nat :=
  (sinceClear calls).countP (Call.declares kind)

/-- A scope that has been worked with. -/
structure Session where
  scope : Scope
  /-- What the calls have answered.  A call that clears has no answer. -/
  answers : List (Option Variable)

namespace Session

/-- Nothing has been done with the scope. -/
def initial : Session := ⟨.empty, []⟩

/-- Call the scope once. -/
def perform (session : Session) : Call -> Except Abort Session
  | .define name type kind => (session.scope.define name type kind).map fun (answer, scope) =>
    ⟨scope, session.answers ++ [some answer]⟩
  | .clear => .ok ⟨session.scope.clear, session.answers ++ [none]⟩

/-- Call a scope again and again, until it has no cell for a variable. -/
def run (calls : List Call) : Except Abort Session := calls.foldlM perform initial

end Session

/-! ## Calls since the last clearing -/

theorem sinceClear_define (calls : List Call) (name type : String) (kind : VariableKind) :
    sinceClear (calls ++ [.define name type kind]) =
      sinceClear calls ++ [.define name type kind] := by
  unfold sinceClear
  exact List.rtakeWhile_concat_pos _ _ _ (decide_eq_true nofun)

theorem sinceClear_clear (calls : List Call) : sinceClear (calls ++ [.clear]) = [] := by
  unfold sinceClear
  exact List.rtakeWhile_concat_neg _ _ _ (by simp)

theorem declared_define (kind other : VariableKind) (calls : List Call) (name type : String) :
    declared kind (calls ++ [.define name type other]) =
      declared kind calls + if kind = other then 1 else 0 := by
  unfold declared
  rw [sinceClear_define, List.countP_append, List.countP_singleton]
  simp only [Call.declares, beq_iff_eq]

theorem declared_clear (kind : VariableKind) (calls : List Call) :
    declared kind (calls ++ [.clear]) = 0 := by
  unfold declared
  rw [sinceClear_clear]
  rfl

theorem declared_le_length (kind : VariableKind) (calls : List Call) :
    declared kind calls ≤ calls.length :=
  (List.countP_le_length).trans (List.rtakeWhile_suffix _ _).length_le

/-- Calls that do not declare a name declare other ones. -/
theorem ne_of_not_names {calls : List Call} {name other type : String} {kind : VariableKind}
    (others : ∀ call ∈ calls ++ [.define name type kind], call.names other = false) :
    name ≠ other := by
  rintro rfl
  have last := others _ (List.mem_append_right calls (List.mem_singleton_self _))
  rw [Call.names, beq_self_eq_true] at last
  cases last

/-- A call among others is the last one, or is among those before the last. -/
theorem cases_of_append_singleton {α : Type} {front before behind : List α} {last item : α}
    (split : front ++ [last] = before ++ item :: behind) :
    (before = front ∧ item = last ∧ behind = []) ∨
      ∃ rest, front = before ++ item :: rest ∧ behind = rest ++ [last] := by
  cases behind using List.reverseRecOn with
  | nil =>
      rcases List.append_inj' split rfl with ⟨same, single⟩
      cases single
      exact .inl ⟨same.symm, rfl, rfl⟩
  | append_singleton rest final =>
      rw [← List.cons_append, ← List.append_assoc] at split
      rcases List.append_inj' split rfl with ⟨same, single⟩
      cases single
      exact .inr ⟨rest, same, rfl⟩

/-- What has been answered stays in its place. -/
theorem answered_append {α : Type} {answers : List α} {place : Nat} {answer : α}
    (answered : answers[place]? = some answer) (later : List α) :
    (answers ++ later)[place]? = some answer := by
  rw [List.getElem?_append_left (List.getElem?_eq_some_iff.mp answered).1]
  exact answered

/-! ## What a session reflects -/

namespace Session

/-- What a scope knows and has answered is told by the calls. -/
structure Reflects (session : Session) (calls : List Call) : Prop where
  length : session.answers.length = calls.length
  counts : ∀ kind, (session.scope.count kind).toNat = declared kind calls
  numbered : session.scope.Numbered
  /-- A declaration is answered by the next number of its kind, which is known until the name is
  declared again. -/
  knows : ∀ before name type kind behind, calls = before ++ .define name type kind :: behind ->
    ∃ index : UInt16, index.toNat = declared kind before ∧
      session.answers[before.length]? = some (some ⟨type, kind, index⟩) ∧
      (.clear ∉ behind -> (∀ call ∈ behind, call.names name = false) ->
        session.scope.get? name = some ⟨type, kind, index⟩)
  forgets : ∀ name, (∀ call ∈ sinceClear calls, call.names name = false) ->
    session.scope.get? name = none

theorem reflects_initial : initial.Reflects [] := by
  refine ⟨rfl, ?counts, Numbered.empty, ?knows, fun name _ => get?_empty name⟩
  case counts =>
    intro kind
    cases kind <;> rfl
  case knows =>
    intro before name type kind behind split
    cases before <;> cases split

variable {session : Session} {calls : List Call}

/-- Clearing takes everything back to the start except what has been answered. -/
theorem Reflects.clear (reflects : session.Reflects calls) :
    Reflects ⟨session.scope.clear, session.answers ++ [none]⟩ (calls ++ [.clear]) := by
  refine ⟨?length, ?counts, Numbered.empty, ?knows, fun name _ => get?_empty name⟩
  case length =>
    rw [List.length_append, List.length_append, reflects.length]
    rfl
  case counts =>
    intro kind
    rw [declared_clear]
    cases kind <;> rfl
  case knows =>
    intro before name type kind behind split
    rcases cases_of_append_singleton split with ⟨-, other, -⟩ | ⟨rest, earlier, rfl⟩
    · cases other
    · rcases reflects.knows before name type kind rest earlier with ⟨index, number, answer, -⟩
      refine ⟨index, number, answered_append answer _, fun kept => ?_⟩
      exact absurd (List.mem_append_right rest (List.mem_singleton_self _)) kept

/-- A declaration takes the next number of its kind and changes nothing else. -/
theorem Reflects.define {name type : String} {kind : VariableKind} (reflects : session.Reflects calls)
    (room : declared kind calls + 1 < UInt16.size) :
    ∃ next, session.perform (.define name type kind) = .ok next ∧
      next.Reflects (calls ++ [.define name type kind]) := by
  have enough : (session.scope.count kind).toNat + 1 < UInt16.size := by
    rw [reflects.counts kind]
    exact room
  have succeeds : ∃ after, session.scope.define name type kind =
      .ok (⟨type, kind, session.scope.count kind⟩, after) :=
    ⟨_, define_eq_ok.mpr ⟨enough, rfl, rfl⟩⟩
  rcases succeeds with ⟨after, done⟩
  refine ⟨⟨after, session.answers ++ [some ⟨type, kind, session.scope.count kind⟩]⟩, ?performed,
    ?length, ?counts, reflects.numbered.define done, ?knows, ?forgets⟩
  case performed =>
    rw [perform, done]
    rfl
  case length =>
    rw [List.length_append, List.length_append, reflects.length]
    rfl
  case counts =>
    intro other
    rw [count_define done, reflects.counts, declared_define]
  case knows =>
    intro before called type' kind' behind split
    rcases cases_of_append_singleton split with ⟨rfl, same, rfl⟩ | ⟨rest, earlier, rfl⟩
    · cases same
      -- the declaration itself: nothing is behind it that could take the name away
      refine ⟨session.scope.count kind, reflects.counts kind, ?_, fun _ _ => ?_⟩
      · rw [← reflects.length, List.getElem?_concat_length]
      · rw [get?_define done, if_pos rfl]
    · rcases reflects.knows _ _ _ _ rest earlier with ⟨index, number, answer, known⟩
      refine ⟨index, number, answered_append answer _, fun kept others => ?_⟩
      rw [get?_define done, if_neg (ne_of_not_names others)]
      exact known (fun cleared => kept (List.mem_append_left _ cleared))
        (fun call member => others call (List.mem_append_left _ member))
  case forgets =>
    intro other others
    rw [sinceClear_define] at others
    rw [get?_define done, if_neg (ne_of_not_names others)]
    exact reflects.forgets other fun call member => others call (List.mem_append_left _ member)

/-- As long as there is room, a scope can be called again and again. -/
theorem exists_reflects {calls : List Call}
    (room : ∀ before, before <+: calls -> ∀ kind, declared kind before < UInt16.size) :
    ∃ session, run calls = .ok session ∧ session.Reflects calls := by
  induction calls using List.reverseRecOn with
  | nil => exact ⟨initial, rfl, reflects_initial⟩
  | append_singleton calls call inductionHypothesis =>
      have earlier := inductionHypothesis fun before front =>
        room before (front.trans (List.prefix_append _ _))
      rcases earlier with ⟨session, ran, reflects⟩
      have steps : run (calls ++ [call]) = session.perform call := by
        unfold run at ran ⊢
        rw [List.foldlM_append, ran]
        exact bind_pure (session.perform call)
      cases call with
      | clear => exact ⟨_, steps, reflects.clear⟩
      | define name type kind =>
          have enough := room _ (List.prefix_refl _) kind
          rw [declared_define, if_pos rfl] at enough
          rcases reflects.define enough with ⟨next, performed, reflects⟩
          exact ⟨next, steps.trans performed, reflects⟩

end Session

/-- A scope that is new is called to declare variables and to clear, and at no time have 65536 variables
of one kind been declared since it was last cleared.  Then every call succeeds.  A declaration is
answered by a variable whose index is the number of the earlier ones of its kind, and that variable is
what the name means until it is declared again.  A name that has not been declared since the clearing
means nothing.  The count of a kind is the number of its declarations, and two names never share a
cell. -/
theorem indices_are_dense {calls : List Call}
    (room : ∀ before, before <+: calls -> ∀ kind, declared kind before < 65536) :
    ∃ session, Session.run calls = .ok session ∧
      (∀ before name type kind behind, calls = before ++ .define name type kind :: behind ->
        ∃ index : UInt16, index.toNat = declared kind before ∧
          session.answers[before.length]? = some (some ⟨type, kind, index⟩) ∧
          (.clear ∉ behind -> (∀ call ∈ behind, call.names name = false) ->
            session.scope.get? name = some ⟨type, kind, index⟩)) ∧
      (∀ name, (∀ call ∈ sinceClear calls, call.names name = false) ->
        session.scope.get? name = none) ∧
      (∀ kind, (session.scope.count kind).toNat = declared kind calls) ∧
      (∀ name other first second, session.scope.get? name = some first ->
        session.scope.get? other = some second -> name ≠ other ->
        ¬(first.kind = second.kind ∧ first.index = second.index)) := by
  rcases Session.exists_reflects room with ⟨session, ran, reflects⟩
  refine ⟨session, ran, reflects.knows, reflects.forgets, reflects.counts, ?_⟩
  rintro name other first second here there different ⟨kinds, indices⟩
  exact different (reflects.numbered.distinct name other first second here there kinds indices)

/-- A name is declared again as a variable of another kind.  Its field is not given to the next one. -/
theorem indices_of_redeclared_name :
    let calls : List Call := [.define "x" "int" .static, .clear, .define "x" "int" .field,
      .define "i" "int" .«local», .define "x" "Array" .«local», .define "y" "int" .field]
    (∀ before, before <+: calls -> ∀ kind, declared kind before < 65536) ∧
    ∃ session, Session.run calls = .ok session ∧
      session.scope.get? "x" = some ⟨"Array", .«local», 1⟩ ∧
      session.scope.get? "y" = some ⟨"int", .field, 1⟩ ∧ session.scope.count .static = 0 := by
  intro calls
  have room : ∀ before, before <+: calls -> ∀ kind, declared kind before < 65536 := by
    intro before front kind
    have short : before.length ≤ 6 := front.length_le
    have := declared_le_length kind before
    omega
  rcases indices_are_dense room with ⟨session, ran, knows, -, counts, -⟩
  refine ⟨room, session, ran, ?_, ?_, UInt16.toNat_inj.mp (counts .static)⟩
  · rcases knows (calls.take 4) "x" "Array" .«local» _ rfl with ⟨index, number, -, known⟩
    have second : index = 1 := UInt16.toNat_inj.mp (number.trans (by decide))
    rw [known (by decide) (by decide), second]
  · rcases knows (calls.take 5) "y" "int" .field _ rfl with ⟨index, number, -, known⟩
    have second : index = 1 := UInt16.toNat_inj.mp (number.trans (by decide))
    rw [known (by decide) (by decide), second]

end Scope
end Jack
end HackToolchain
