import Socp.Output.Stream

/-!
Where a program reports to. All targets but a stream take every block whole.
-/

namespace Socp

inductive PrintTarget
  | console (printed : Text)
  | file (written : Text)
  | buffer (text : Text)
  | stream (s : TextStream)
  /-- Throws everything away. -/
  | sink

inductive OutputError
  | notBuffered
deriving DecidableEq, Repr

def OutputError.message : OutputError → String
  | .notBuffered => "Print buffering is not configured."

namespace PrintTarget

/-- Writes the pieces of one block. A failure loses the rest of the block and nothing else. -/
def write (target : PrintTarget) (block : List Text) : PrintTarget :=
  match target with
  | .console printed => .console (printed ++ block.flatten)
  | .file written => .file (written ++ block.flatten)
  | .buffer text => .buffer (text ++ block.flatten)
  | .stream s => .stream (s.writePieces block).2
  | .sink => .sink

def buffered (target : PrintTarget) : Except OutputError Text :=
  match target with
  | .buffer text => .ok text
  | _ => .error .notBuffered

end PrintTarget

end Socp
