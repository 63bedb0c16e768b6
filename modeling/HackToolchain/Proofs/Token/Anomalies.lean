import HackToolchain.Proofs.Token.Complaints

namespace HackToolchain

/-!
# Anomalies are reported once

A cursor that reports anomalies has recorded those among the tokens that were in its window, and those
behind its window are still to come.  Together they are the anomalies of the whole source, and no move
changes that.  So wherever the reading stops, moving on to the end of the source records what is left,
each once and in the order of the source.
-/

/-- The diagnostics of the anomalies among some tokens. -/
def anomalies (tokens : List Token) : List Diagnostic :=
  (tokens.filter fun token => token.kind.isAnomaly).map fun token => ⟨token.position, .anomaly token⟩

theorem anomalies_cons_of_true {token : Token} (anomaly : token.kind.isAnomaly = true)
    (rest : List Token) :
    anomalies (token :: rest) = ⟨token.position, .anomaly token⟩ :: anomalies rest := by
  simp only [anomalies, List.filter_cons, anomaly, if_true, List.map_cons]

theorem anomalies_cons_of_false {token : Token} (classified : token.kind.isAnomaly = false)
    (rest : List Token) : anomalies (token :: rest) = anomalies rest := by
  simp only [anomalies, List.filter_cons, classified, Bool.false_eq_true, if_false]

theorem complaint_of_mem_anomalies {tokens : List Token} {diagnostic : Diagnostic}
    (member : diagnostic ∈ anomalies tokens) : ∃ token, diagnostic.complaint = .anomaly token := by
  rcases List.mem_map.mp member with ⟨token, -, rfl⟩
  exact ⟨token, rfl⟩

/-- No reading leaves anomalies out. -/
theorem anomalies_without (reading : Reading) (stream : TokenStream) :
    anomalies (stream.without reading.hides).tokens = anomalies stream.tokens := by
  unfold anomalies TokenStream.without
  dsimp only
  rw [List.filter_filter]
  refine congrArg _ (List.filter_congr fun token _ => ?_)
  unfold Reading.hides
  cases token.kind with
  | comment kind => rfl
  | newline => rfl
  | _ => exact Bool.and_true _

namespace Cursor

variable {start : Cursor}

/-- What is recorded, and the anomalies that are still to come into the window. -/
def ledger (cursor : Cursor) : List Diagnostic :=
  cursor.diagnostics.toList ++ anomalies cursor.stream.tokens.tail.tail

/-- A token that enters the window is recorded if it is an anomaly. -/
theorem notice_head (cursor : Cursor) (reports : cursor.reportsAnomalies = true) (stream : TokenStream) :
    (cursor.notice stream.head).diagnostics.toList ++ anomalies stream.tokens.tail =
      cursor.diagnostics.toList ++ anomalies stream.tokens := by
  rcases stream with ⟨tokens, finish⟩
  unfold notice
  rw [reports, Bool.true_and]
  cases tokens with
  | nil => rfl
  | cons token rest =>
      have head : TokenStream.head ⟨token :: rest, finish⟩ = token := rfl
      rw [head, List.tail_cons]
      cases anomaly : token.kind.isAnomaly with
      | true =>
          rw [if_pos rfl, anomalies_cons_of_true anomaly, complain, Array.toList_push,
            List.append_assoc, List.singleton_append]
      | false => rw [if_neg Bool.false_ne_true, anomalies_cons_of_false anomaly]

theorem ofStream_ledger (stream : TokenStream) : (ofStream stream true).ledger = anomalies stream.tokens := by
  let fresh : Cursor := ⟨stream, true, 0, #[]⟩
  have first := fresh.notice_head rfl stream
  have second := notice_head _ (fresh.notice_reportsAnomalies stream.head) stream.tail
  unfold ledger
  rw [ofStream_stream]
  exact second.trans first

theorem advance_ledger (reports : start.reportsAnomalies = true) :
    start.advance.ledger = start.ledger := by
  let moved : Cursor := { start with stream := start.stream.tail, moves := start.moves + 1 }
  have noticed := moved.notice_head reports start.stream.tail.tail
  unfold ledger
  rw [advance_tokens]
  exact noticed

theorem advanceBy_ledger (reports : start.reportsAnomalies = true) (count : Nat) :
    (start.advanceBy count).ledger = start.ledger := by
  induction count with
  | zero => rfl
  | succ count inductionHypothesis =>
      have still := (start.advanceBy_reportsAnomalies count).trans reports
      exact (advance_ledger still).trans inductionHypothesis

/-- At the end of the source everything is recorded. -/
theorem drain_report (reports : start.reportsAnomalies = true) : start.drain.report = start.ledger := by
  have all := advanceBy_ledger reports start.remaining
  rw [ledger, advanceBy_tokens, remaining, List.drop_length] at all
  exact (List.append_nil _).symm.trans all

/-- A complaint is put between the anomalies that were met in front of it and those that follow. -/
theorem drain_report_complain (reports : start.reportsAnomalies = true) (count : Nat)
    (position : Position) (complaint : Complaint) :
    ∃ before behind, before ++ behind = start.ledger ∧
      ((start.advanceBy count).complain position complaint).drain.report =
        before ++ ⟨position, complaint⟩ :: behind := by
  have complained : ((start.advanceBy count).complain position complaint).reportsAnomalies = true :=
    (start.advanceBy_reportsAnomalies count).trans reports
  refine ⟨_, _, advanceBy_ledger reports count, ?_⟩
  rw [drain_report complained, ledger, complain, Array.toList_push, List.append_assoc]
  rfl

theorem ofStream_reportsAnomalies (stream : TokenStream) (reports : Bool) :
    (ofStream stream reports).reportsAnomalies = reports := by
  unfold ofStream
  rw [notice_reportsAnomalies, notice_reportsAnomalies]

/-- Moving on alone records nothing but anomalies. -/
theorem not_refused_advanceBy (stream : TokenStream) (count : Nat) :
    ¬ ((ofStream stream true).advanceBy count).Refused := by
  rintro ⟨before, last, recorded, aboutGrammar⟩
  have reports := ofStream_reportsAnomalies stream true
  have all := (advanceBy_ledger reports count).trans (ofStream_ledger stream)
  have member : last ∈ anomalies stream.tokens := by
    rw [← all, ledger, recorded]
    exact List.mem_append_left _ (List.mem_append_right _ List.mem_cons_self)
  rcases complaint_of_mem_anomalies member with ⟨token, same⟩
  exact aboutGrammar token same

end Cursor
end HackToolchain
