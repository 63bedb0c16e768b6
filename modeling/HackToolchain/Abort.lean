namespace HackToolchain

/-!
# Aborted runs

Places in a source and cells of variables are numbered by machine words, and the sum that counts
them on is checked: where it does not fit its word, the run ends there.  That is no error of a
source.  Nothing is reported or handed over, and no caller goes on.
-/

/-- Why a run has ended without an answer. -/
inductive Abort where
  /-- A sum did not fit the word that it is kept in. -/
  | overflow
deriving DecidableEq, Repr

/-- What is said at the end of an aborted run. -/
def Abort.message : Abort -> String
  | .overflow => "attempt to add with overflow"

end HackToolchain
