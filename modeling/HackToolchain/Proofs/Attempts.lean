namespace HackToolchain

/-!
# Attempts in a row

Fields of an instruction are read one after another, and variables are declared one after another, until
something fails.  What a row of attempts gives is taken apart here, once for two of them and once for as
many as there are items.
-/

/-- Two attempts succeed if both do. -/
theorem bind_eq_ok {first : Except ε α} {next : α -> Except ε β} {result : β} :
    first >>= next = .ok result ↔ ∃ value, first = .ok value ∧ next value = .ok result := by
  cases first with
  | error error =>
      constructor
      · intro same
        cases same
      · rintro ⟨value, same, -⟩
        cases same
  | ok value =>
      constructor
      · exact fun same => ⟨value, rfl, same⟩
      · rintro ⟨other, same, rest⟩
        cases same
        exact rest

/-- Two attempts fail if the first does, or if the second does behind a first that succeeds. -/
theorem bind_eq_error {first : Except ε α} {next : α -> Except ε β} {fault : ε} :
    first >>= next = .error fault ↔
      first = .error fault ∨ ∃ value, first = .ok value ∧ next value = .error fault := by
  cases first with
  | error error =>
      constructor
      · intro same
        cases same
        exact .inl rfl
      · rintro (same | ⟨value, same, -⟩)
        · cases same
          rfl
        · cases same
  | ok value =>
      constructor
      · exact fun same => .inr ⟨value, rfl, same⟩
      · rintro (same | ⟨other, same, rest⟩)
        · cases same
        · cases same
          exact rest

/-- A property of the items to come and of the state so far that every step keeps holds in the end,
when no items are left. -/
theorem foldlM_keeps {step : β -> α -> Except ε β} (holds : List α -> β -> Prop)
    (keeps : ∀ item rest initial next, holds (item :: rest) initial ->
      step initial item = .ok next -> holds rest next)
    (items : List α) {initial final : β} (started : holds items initial)
    (done : items.foldlM step initial = .ok final) : holds [] final := by
  induction items generalizing initial with
  | nil =>
      cases done
      exact started
  | cons item rest inductionHypothesis =>
      rw [List.foldlM_cons] at done
      rcases bind_eq_ok.mp done with ⟨next, stepped, done⟩
      exact inductionHypothesis (keeps item rest initial next started stepped) done

end HackToolchain
