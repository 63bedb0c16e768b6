import HackToolchain.Proofs.Token.Passing

namespace HackToolchain

/-!
# Failing readings complain

A reading that comes to nothing has recorded a complaint.  For one production this is nothing more than
a look at how it fails; but a production that repeats or nests fails without a word when its bound is
reached.  So it is shown along with this that the bound is not reached: whatever succeeds leaves no
more tokens than it found, every repetition and every nesting leaves fewer, and the bound is larger
than their number.

What is recorded once stays recorded, and every complaint shows as a line.
-/

namespace Cursor

variable {start : Cursor}

/-! ## Tokens that are left -/

theorem advance_remaining (cursor : Cursor) : cursor.advance.remaining = cursor.remaining - 1 := by
  unfold remaining
  rw [advance_tokens, List.length_tail]

theorem advance_remaining_le (cursor : Cursor) : cursor.advance.remaining ≤ cursor.remaining := by
  rw [advance_remaining]
  exact Nat.sub_le ..

theorem remaining_of_current {cursor : Cursor} (notEnd : cursor.current.kind ≠ .endOfFile) :
    0 < cursor.remaining := by
  exact List.length_pos_iff.mpr fun none => notEnd (current_of_no_tokens none)

theorem advance_remaining_lt (notEnd : start.lookahead.kind ≠ .endOfFile) :
    start.advance.remaining < start.remaining := by
  have more := List.length_pos_iff.mpr (more_of_kind notEnd)
  rw [List.length_tail] at more
  rw [advance_remaining]
  unfold remaining
  omega

/-! ## What is recorded -/

theorem hasErrors_complain (cursor : Cursor) (position : Position) (complaint : Complaint) :
    (cursor.complain position complaint).hasErrors = true := by
  simp [hasErrors, complain]

theorem hasErrors_notice {cursor : Cursor} (recorded : cursor.hasErrors = true) (token : Token) :
    (cursor.notice token).hasErrors = true := by
  unfold notice
  split
  · exact hasErrors_complain ..
  · exact recorded

theorem hasErrors_advance (recorded : start.hasErrors = true) : start.advance.hasErrors = true := by
  have moved : { start with stream := start.stream.tail, moves := start.moves + 1 }.hasErrors = true :=
    recorded
  exact hasErrors_notice moved _

theorem hasErrors_advanceBy (recorded : start.hasErrors = true) (count : Nat) :
    (start.advanceBy count).hasErrors = true := by
  induction count with
  | zero => exact recorded
  | succ count inductionHypothesis => exact hasErrors_advance inductionHypothesis

theorem report_ne_nil (recorded : start.hasErrors = true) : start.report ≠ [] := by
  intro none
  rw [hasErrors, Array.toList_eq_nil_iff.mp none] at recorded
  cases recorded

/-- The last complaint that was recorded is about the grammar and not about an anomaly. -/
def Refused (cursor : Cursor) : Prop :=
  ∃ before last, cursor.diagnostics.toList = before ++ [last] ∧
    ∀ token, last.complaint ≠ .anomaly token

theorem refused_complain (cursor : Cursor) (position : Position) {complaint : Complaint}
    (aboutGrammar : ∀ token, complaint ≠ .anomaly token) :
    (cursor.complain position complaint).Refused :=
  ⟨cursor.diagnostics.toList, ⟨position, complaint⟩, Array.toList_push, aboutGrammar⟩

theorem Refused.hasErrors {cursor : Cursor} (refused : cursor.Refused) : cursor.hasErrors = true := by
  rcases refused with ⟨before, last, recorded, -⟩
  rw [Cursor.hasErrors, ← Array.isEmpty_toList, recorded]
  cases before <;> rfl

end Cursor

namespace Production

variable {start : Cursor} {bound room : Nat}

/-! ## Productions that settle -/

/-- What became of a reading: it has answered and left fewer tokens than a number, or it has failed
with a complaint about the grammar. -/
def Answered (room : Nat) : Option α × Cursor -> Prop
  | (some _, last) => last.remaining < room
  | (none, last) => last.Refused

/-- The production answers or complains wherever fewer tokens are left than the bound says, and never
goes back. -/
def Settles (bound : Nat) (production : Production α) : Prop :=
  ∀ start : Cursor, start.remaining < bound -> Answered (start.remaining + 1) (production start)

theorem Answered.mono {result : Option α × Cursor} (answered : Answered room result) {more : Nat}
    (above : room ≤ more) : Answered more result := by
  rcases result with ⟨_ | value, last⟩
  · exact answered
  · exact Nat.lt_of_lt_of_le answered above

theorem Answered.andThen {first : Production α} {next : α -> Production β} {between : Nat}
    (answered : Answered between (first start))
    (goesOn : ∀ value last, last.remaining < between -> Answered room (next value last)) :
    Answered room ((first >>= next) start) := by
  change Answered room (Production.andThen first next start)
  unfold Production.andThen
  rcases done : first start with ⟨_ | value, last⟩
  · rw [done] at answered
    exact answered
  · rw [done] at answered
    exact goesOn value last answered

theorem answered_pure (value : α) (fits : start.remaining < room) :
    Answered room ((pure value : Production α) start) := fits

theorem answered_reject {complaint : Complaint} (aboutGrammar : ∀ token, complaint ≠ .anomaly token) :
    Answered room (reject complaint start : Option α × Cursor) :=
  Cursor.refused_complain _ _ aboutGrammar

theorem answered_rejectCurrent (expected : String) :
    Answered room (rejectCurrent expected start : Option α × Cursor) :=
  answered_reject fun _ => nofun

theorem answered_rejectLookahead (expected : String) :
    Answered room (rejectLookahead expected start : Option α × Cursor) :=
  Cursor.refused_complain _ _ fun _ => nofun

theorem expect_of_ne {kind : TokenKind} (different : start.lookahead.kind ≠ kind) :
    expect kind start = (none, start.rejectLookahead kind.text) := by
  unfold expect Cursor.expect Cursor.lookaheadIs
  rw [if_neg fun equal => different (beq_iff_eq.mp equal)]

/-- A required token either follows or is missed. -/
theorem answered_expect (kind : TokenKind) {room : Nat} (fits : start.advance.remaining < room) :
    Answered room (expect kind start) := by
  by_cases same : start.lookahead.kind = kind
  · rw [expect_eq_some.mpr ⟨same, rfl⟩]
    exact fits
  · rw [expect_of_ne same]
    exact Cursor.refused_complain _ _ fun _ => nofun

/-- Behind a token that had to follow there are fewer tokens. -/
theorem answered_expect_proper {kind : TokenKind} (proper : kind ≠ .endOfFile) :
    Answered start.remaining (expect kind start) := by
  by_cases same : start.lookahead.kind = kind
  · exact answered_expect kind (Cursor.advance_remaining_lt (same ▸ proper))
  · have answered := answered_expect kind (Nat.lt_succ_self start.advance.remaining)
    rcases done : expect kind start with ⟨_ | ⟨⟩, last⟩
    · rw [done] at answered
      exact answered
    · exact absurd (expect_eq_some.mp done).1 same

theorem answered_expectLiteral {kind : TokenKind} (proper : kind ≠ .endOfFile) :
    Answered start.remaining (expectLiteral kind start) :=
  (answered_expect_proper proper).andThen fun _ _ fewer => answered_pure _ fewer

theorem current_andThen (next : Token -> Production α) :
    (current >>= next) start = next start.current start := rfl

theorem lookahead_andThen (next : Token -> Production α) :
    (lookahead >>= next) start = next start.lookahead start := rfl

theorem advance_andThen (next : Unit -> Production α) :
    (advance >>= next) start = next () start.advance := rfl

end Production

/-! ## Line-oriented sources -/

/-- A source that is not read line by line is refused with a reason. -/
theorem readLines_error_ne_nil {dialect : Dialect} {item : Production α} {source : String}
    {diagnostics : List Diagnostic} (failed : readLines dialect item source = .error diagnostics) :
    diagnostics ≠ [] := by
  unfold readLines at failed
  rcases runLines dialect item source with ⟨items, cursor⟩
  dsimp only at failed
  split at failed
  · rename_i recorded
    cases failed
    exact Cursor.report_ne_nil recorded
  · cases failed

/-! ## Wordings -/

theorem append_ne_empty {front : String} (nonempty : front ≠ "") (back : String) : front ++ back ≠ "" := by
  intro none
  exact nonempty (String.append_eq_empty_iff.mp none).1

/-- Every diagnostic has a wording. -/
theorem Diagnostic.text_ne_empty (diagnostic : Diagnostic) : diagnostic.text ≠ "" := by
  unfold text
  iterate 5 refine append_ne_empty ?_ _
  decide

theorem Diagnostic.joined_ne_empty {diagnostics : List Diagnostic} (some : diagnostics ≠ []) :
    joined diagnostics ≠ "" := by
  rcases diagnostics with _ | ⟨first, rest⟩
  · exact absurd rfl some
  · unfold joined Text.joinLines
    cases rest with
    | nil =>
        rw [List.map_singleton, String.intercalate_singleton]
        exact first.text_ne_empty
    | cons second others =>
        rw [List.map_cons, List.map_cons, String.intercalate_cons_cons]
        exact append_ne_empty (append_ne_empty first.text_ne_empty _) _

namespace Text

theorem linesFrom_eq_nil_iff {current : List Char} {closed : List (List Char)} {text : List Char} :
    linesFrom current closed text = [] ↔ current = [] ∧ closed = [] ∧ text = [] := by
  fun_induction linesFrom current closed text with
  | case1 current closed =>
      rw [List.reverse_eq_nil_iff]
      cases current with
      | nil => simp
      | cons first rest => simp
  | case2 current closed rest inductionHypothesis => simp [inductionHypothesis]
  | case3 current closed character rest notNewline inductionHypothesis => simp [inductionHypothesis]

/-- Only the empty text has no lines. -/
theorem lines_eq_nil_iff {text : String} : lines text = [] ↔ text = "" := by
  rw [lines, List.map_eq_nil_iff, linesFrom_eq_nil_iff, String.toList_eq_nil_iff]
  simp only [true_and]

end Text
end HackToolchain
