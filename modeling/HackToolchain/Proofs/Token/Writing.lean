import HackToolchain.Proofs.Token.Pieces

namespace HackToolchain

/-!
# Tokens that are written down

Reserved words, names, numbers and marks can be written one behind the other with a blank behind each
of them.  What has been written is scanned as these tokens again.
-/

/-- A token that is scanned as itself where its literal stands in front of a blank. -/
inductive Token.IsWritten (dialect : Dialect) : Token -> Prop where
  | keyword {word : Keyword} (reserved : word ∈ dialect.keywords) : IsWritten dialect (.ofKeyword word)
  | name {name : String} (isIdentifier : dialect.IsIdentifier name) : IsWritten dialect (.ofName name)
  | number (number : Nat) : IsWritten dialect (.ofNumber number)
  | mark {mark : Mark} (notSlash : mark ≠ .slash)
      (startsNone : dialect.startsName mark.character = false) : IsWritten dialect (.ofMark mark)

/-- No mark but a slash begins anything else in the class language. -/
theorem Token.IsWritten.ofMark {mark : Mark} (notSlash : mark ≠ .slash) :
    (Token.ofMark mark).IsWritten .jack :=
  .mark notSlash (by cases mark <;> decide)

/-- Tokens with a blank behind each of them. -/
def spacedText (tokens : List Token) : List Char :=
  tokens.flatMap fun token => token.literal.toList ++ [' ']

variable {dialect : Dialect}

theorem Token.IsWritten.scans {token : Token} (written : token.IsWritten dialect)
    (behind : List Char) : Scans dialect (' ' :: behind) token.literal.toList [token] := by
  have word : Stops dialect.continuesName (' ' :: behind) :=
    stops_cons.mpr (by cases dialect <;> decide)
  cases written with
  | keyword reserved => exact .keyword reserved word
  | name isIdentifier => exact .name isIdentifier word
  | number number => exact .number number (stops_cons.mpr (by decide))
  | @mark mark notSlash startsNone =>
      have literal : (Token.ofMark mark).literal.toList = [mark.character] := String.toList_ofList
      rw [literal]
      exact .mark notSlash startsNone

theorem scans_spacedText {tokens : List Token} (written : ∀ token ∈ tokens, token.IsWritten dialect) :
    Scans dialect [] (spacedText tokens) tokens := by
  induction tokens with
  | nil => exact .done
  | cons token rest inductionHypothesis =>
      rcases List.forall_mem_cons.mp written with ⟨first, others⟩
      have blank : Scans dialect (spacedText rest ++ []) [' '] [] := .blank rfl .done
      have piece : Scans dialect (spacedText rest ++ []) (token.literal.toList ++ [' ']) [token] :=
        (first.scans _).append blank
      exact piece.append (inductionHypothesis others)

/-- Written tokens are neither comments nor newlines. -/
theorem Token.IsWritten.hides_eq_false {token : Token} (written : token.IsWritten dialect)
    (reading : Reading) : reading.hides token.kind = false := by
  cases written <;> rfl

/-- A source that was written down token by token is read as these tokens. -/
theorem stream_spacedText (reading : Reading) {tokens : List Token}
    (written : ∀ token ∈ tokens, token.IsWritten reading.dialect) :
    (reading.stream (String.ofList (spacedText tokens))).tokens.map Token.unplaced = tokens := by
  let scanner := Scanner.ofSource reading.dialect reading.tabWidth
    (String.ofList (spacedText tokens))
  have starts : scanner.rest = spacedText tokens ++ [] := by
    rw [List.append_nil]
    exact String.toList_ofList
  obtain ⟨placed, unplaced, -, streams⟩ :=
    (scans_spacedText written).stream (rfl : scanner.dialect = reading.dialect) starts
  rw [Scanner.stream_nil (scanner.past (spacedText tokens) []) rfl, List.append_nil] at streams
  have kept : placed.filter (fun token => !reading.hides token.kind) = placed := by
    rw [List.filter_eq_self]
    intro token member
    have inTokens : token.unplaced ∈ tokens := by
      rw [← unplaced]
      exact List.mem_map_of_mem member
    have shown := (written _ inTokens).hides_eq_false reading
    change (!reading.hides token.unplaced.kind) = true
    rw [shown]
    rfl
  change (scanner.stream.tokens.filter fun token => !reading.hides token.kind).map _ = _
  rw [streams, kept, unplaced]

end HackToolchain
