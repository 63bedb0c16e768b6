import Mathlib.Data.List.Basic

namespace HackToolchain

/-!
# Numbered texts

Labels are made by putting a number behind a text, with a separator between them.  A number is
written with digits only, so the last separator tells where the text ends: neither the text nor the
number can be mistaken for those of another label.
-/

theorem isDigit_of_mem_toString {number : Nat} {character : Char}
    (member : character ∈ (toString number).toList) : character.isDigit = true := by
  rw [Nat.toString_eq_repr, Nat.toList_repr] at member
  exact Nat.isDigit_of_mem_toDigits (by decide) (by decide) member

theorem notMem_digits {character : Char} (noDigit : character.isDigit = false) (number : Nat) :
    character ∉ (toString number).toList := by
  intro member
  rw [isDigit_of_mem_toString member] at noDigit
  cases noDigit

theorem toString_inj {number number' : Nat}
    (same : (toString number).toList = (toString number').toList) : number = number' := by
  have values := congrArg (fun digits => Nat.ofDigitChars 10 digits 0) same
  simpa [Nat.toString_eq_ofList_toDigits] using values

/-- What stands behind the last separator of a text determines the text in front of it. -/
theorem append_cons_inj {front front' behind behind' : List Char} {separator : Char}
    (free : separator ∉ behind) (free' : separator ∉ behind')
    (same : front ++ separator :: behind = front' ++ separator :: behind') :
    front = front' ∧ behind = behind' := by
  have last (front behind : List Char) (free : separator ∉ behind) :
      (front ++ separator :: behind).reverse.takeWhile (· != separator) = behind.reverse := by
    rw [List.reverse_append, List.reverse_cons, List.append_assoc, List.takeWhile_append_of_pos]
    · simp
    · intro character member
      rw [List.mem_reverse] at member
      exact bne_iff_ne.mpr fun isSeparator => free (isSeparator ▸ member)
  have behindSame : behind = behind' := by
    rw [← List.reverse_inj, ← last front behind free, ← last front' behind' free', same]
  subst behindSame
  exact ⟨List.append_cancel_right same, rfl⟩

/-- What stands in front of the first separator of a text determines the text behind it. -/
theorem cons_append_inj {front front' behind behind' : List Char} {separator : Char}
    (free : separator ∉ front) (free' : separator ∉ front')
    (same : front ++ separator :: behind = front' ++ separator :: behind') :
    front = front' ∧ behind = behind' := by
  have reversed : behind.reverse ++ separator :: front.reverse =
      behind'.reverse ++ separator :: front'.reverse := by
    simpa using congrArg List.reverse same
  obtain ⟨behindSame, frontSame⟩ := append_cons_inj (by simpa using free) (by simpa using free')
    reversed
  exact ⟨List.reverse_injective frontSame, List.reverse_injective behindSame⟩

end HackToolchain
