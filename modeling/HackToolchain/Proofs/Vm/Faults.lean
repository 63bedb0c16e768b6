import HackToolchain.Vm.Program

namespace HackToolchain
namespace Vm

/-!
# Programs without faults

The check of a program goes through its sites once, with a set of the symbols met so far, and once
more for the jumps.  What it amounts to needs no set: all symbols that the program defines are
different, no command is faulty in itself, and every jump has a label of its own scope to go to.

A program is translated exactly if all three hold.  Nothing is assumed of the names in it.
-/

namespace Site

/-- The symbols that sites give places, in the order of the sites. -/
def definitions (sites : List Site) : List String := sites.filterMap definition?

theorem definitions_append (first second : List Site) :
    definitions (first ++ second) = definitions first ++ definitions second :=
  List.filterMap_append

theorem definitions_cons_of_some {site : Site} {symbol : String} (rest : List Site)
    (defines : site.definition? = some symbol) :
    definitions (site :: rest) = symbol :: definitions rest :=
  List.filterMap_cons_some defines

theorem definitions_cons_of_none {site : Site} (rest : List Site)
    (defines : site.definition? = none) : definitions (site :: rest) = definitions rest :=
  List.filterMap_cons_none defines

/-- A command that defines a symbol is faulty only if the symbol is defined already. -/
theorem fault?_of_definition? {site : Site} {symbol : String}
    (defines : site.definition? = some symbol) : site.command.fault? = none := by
  unfold definition? at defines
  cases command : site.command with
  | function name locals => rfl
  | label name => rfl
  | _ =>
      rw [command] at defines
      cases defines

theorem toList_push_ne_nil (found : Array ProgramError) (error : ProgramError) :
    (found.push error).toList ≠ [] := by
  rw [Array.toList_push]
  exact List.append_ne_nil_of_right_ne_nil _ (List.cons_ne_nil _ _)

/-- The check finds nothing new exactly if no symbol is defined twice and no command is faulty in
itself. -/
theorem check_eq_nil_iff (defined : Std.TreeSet String) (found : Array ProgramError)
    (sites : List Site) :
    (check defined found sites).1.toList = [] ↔
      found.toList = [] ∧ (definitions sites).Nodup ∧
        (∀ symbol ∈ definitions sites, symbol ∉ defined) ∧
        ∀ site ∈ sites, site.command.fault? = none := by
  induction sites generalizing defined found with
  | nil => simp [check, definitions]
  | cons site rest inductionHypothesis =>
      unfold check
      cases defines : site.definition? with
      | some symbol =>
          have valid := fault?_of_definition? defines
          rw [definitions_cons_of_some rest defines]
          dsimp only
          by_cases known : defined.contains symbol = true
          · rw [if_pos known, inductionHypothesis]
            constructor
            · intro clean
              exact absurd clean.1 (toList_push_ne_nil _ _)
            · intro clean
              exact absurd (Std.TreeSet.contains_iff_mem.mp known)
                (clean.2.2.1 symbol List.mem_cons_self)
          · rw [if_neg known, inductionHypothesis]
            have new : symbol ∉ defined := fun member =>
              known (Std.TreeSet.contains_iff_mem.mpr member)
            simp only [List.nodup_cons, List.forall_mem_cons, Std.TreeSet.mem_insert,
              Std.LawfulEqCmp.compare_eq_iff_eq, not_or, new, not_false_eq_true, valid, true_and]
            constructor
            · intro ⟨nothing, distinct, apart, rest⟩
              exact ⟨nothing, ⟨fun member => (apart symbol member).1 rfl, distinct⟩,
                fun other member => (apart other member).2, rest⟩
            · intro ⟨nothing, ⟨fresh, distinct⟩, apart, rest⟩
              refine ⟨nothing, distinct, fun other member => ⟨?_, apart other member⟩, rest⟩
              intro same
              exact fresh (same ▸ member)
      | none =>
          rw [definitions_cons_of_none rest defines]
          cases valid : site.command.fault? with
          | some fault =>
              dsimp only
              rw [inductionHypothesis]
              constructor
              · intro clean
                exact absurd clean.1 (toList_push_ne_nil _ _)
              · intro clean
                have none := clean.2.2.2 site List.mem_cons_self
                rw [valid] at none
                cases none
          | none =>
              dsimp only
              rw [inductionHypothesis]
              simp only [List.forall_mem_cons, valid, true_and]

/-- The check ends with all symbols that are defined anywhere. -/
theorem mem_check (defined : Std.TreeSet String) (found : Array ProgramError) (sites : List Site)
    (symbol : String) :
    symbol ∈ (check defined found sites).2 ↔ symbol ∈ defined ∨ symbol ∈ definitions sites := by
  induction sites generalizing defined found with
  | nil => simp [check, definitions]
  | cons site rest inductionHypothesis =>
      unfold check
      cases defines : site.definition? with
      | some other =>
          rw [definitions_cons_of_some rest defines]
          dsimp only
          by_cases known : defined.contains other = true
          · rw [if_pos known, inductionHypothesis, List.mem_cons]
            constructor
            · exact fun member => member.imp_right .inr
            · rintro (old | rfl | later)
              · exact .inl old
              · exact .inl (Std.TreeSet.contains_iff_mem.mp known)
              · exact .inr later
          · rw [if_neg known, inductionHypothesis, Std.TreeSet.mem_insert,
              Std.LawfulEqCmp.compare_eq_iff_eq, List.mem_cons, or_comm (a := other = symbol),
              or_assoc, eq_comm (a := other)]
      | none =>
          rw [definitions_cons_of_none rest defines]
          cases site.command.fault? with
          | some fault => exact inductionHypothesis _ _
          | none => exact inductionHypothesis _ _

/-- What makes a program translatable. -/
structure Faultless (sites : List Site) : Prop where
  distinct : (definitions sites).Nodup
  valid : ∀ site ∈ sites, site.command.fault? = none
  reaches : ∀ site ∈ sites, ∀ label, site.target? = some label ->
    site.scope.labelSymbol label ∈ definitions sites

theorem undefinedTarget?_eq_none_iff {defined : Std.TreeSet String} {site : Site} :
    undefinedTarget? defined site = none ↔
      ∀ label, site.target? = some label -> site.scope.labelSymbol label ∈ defined := by
  unfold undefinedTarget?
  cases jumps : site.target? with
  | none => simp
  | some label =>
      simp only [Option.some.injEq, forall_eq', ← Std.TreeSet.contains_iff_mem]
      split
      · rename_i known
        simp [known]
      · rename_i unknown
        simp [unknown]

theorem faults_eq_nil_iff (sites : List Site) : faults sites = [] ↔ Faultless sites := by
  have known := mem_check ∅ #[] sites
  have nothing := check_eq_nil_iff ∅ #[] sites
  unfold faults
  rcases answer : check ∅ #[] sites with ⟨found, defined⟩
  rw [answer] at known nothing
  dsimp only at known nothing ⊢
  have same (symbol : String) : symbol ∈ defined ↔ symbol ∈ definitions sites := by
    rw [known]
    simp
  rw [List.append_eq_nil_iff, nothing, List.filterMap_eq_nil_iff]
  simp only [undefinedTarget?_eq_none_iff, same]
  constructor
  · rintro ⟨⟨-, distinct, -, valid⟩, reaches⟩
    exact ⟨distinct, valid, reaches⟩
  · rintro ⟨distinct, valid, reaches⟩
    refine ⟨⟨True.intro, distinct, ?_, valid⟩, reaches⟩
    intro symbol _
    exact Std.TreeSet.not_mem_emptyc

end Site

/-- A program is translated exactly if nothing is wrong with it, and then into its listing. -/
theorem translate_eq_ok {options : Options} {files : List File} {code : Hack.Listing} :
    translate options files = .ok code ↔
      Site.Faultless (Site.ofFiles files) ∧ code = listing options (Site.ofFiles files) := by
  rw [← Site.faults_eq_nil_iff]
  unfold translate
  dsimp only
  cases faults : Site.faults (Site.ofFiles files) with
  | nil =>
      constructor
      · rintro ⟨⟩
        exact ⟨rfl, rfl⟩
      · rintro ⟨-, rfl⟩
        rfl
  | cons fault rest =>
      constructor
      · nofun
      · rintro ⟨none, -⟩
        cases none

end Vm
end HackToolchain
