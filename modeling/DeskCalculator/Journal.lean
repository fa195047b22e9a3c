import DeskCalculator.Buffer

/-!
The journal of a run. Each key is entered with its label and the buffer it meets, and an
evaluation that failed is entered with its cause, since the display does not show it. Labels and
buffers are quoted, so an entry is one line whatever the buffer holds.
-/

namespace DeskCalculator.Journal

inductive Entry where
  | pressed (label : Text) (buffer : Buffer)
  | failed (buffer : Buffer) (cause : EvalError)
deriving DecidableEq

def entries (buffer : Buffer) (key : Key) : List Entry :=
  .pressed key.label buffer ::
    match key, evaluate buffer with
    | .equals, .error cause => [.failed buffer cause]
    | _, _ => []

def run (buffer : Buffer) : List Key → List Entry
  | [] => []
  | key :: rest => entries buffer key ++ run (Buffer.press buffer key) rest

def Entry.line (entry : Entry) (visible : Char → Bool := isVisible) : String :=
  match entry with
  | pressed label buffer => "TRACE touche " ++ quoted visible label ++ " sur " ++
      quoted visible buffer
  | failed buffer cause => "DEBUG évaluation ignorée pour " ++ quoted visible buffer ++ ": " ++
      cause.message visible

end DeskCalculator.Journal
