/-!
# Failures in words

A failure for a reader: what could not be done, and what led to it.
-/

namespace ClassCatalog

/-- What could not be done, and what led to it, nearest cause first. -/
structure Failure where
  message : String
  causes : List String := []
  deriving DecidableEq, Repr, Inhabited

namespace Failure

/-- A failure as the cause of another. -/
def within (message : String) (f : Failure) : Failure := ⟨message, f.message :: f.causes⟩

/-- The causes as lines; several are numbered. -/
def causeLines (f : Failure) : List String :=
  match f.causes with
  | [cause] => ["    " ++ cause]
  | causes => causes.zipIdx.map fun c => "    " ++ toString c.2 ++ ": " ++ c.1

def report (f : Failure) : String :=
  let first := "Error: " ++ f.message ++ "\n"
  if f.causes = [] then first
  else first ++ "\nCaused by:\n" ++ String.join (f.causeLines.map (· ++ "\n"))

end Failure

end ClassCatalog
