import Socp.Program.Data

/-!
Several programs side by side. They share one console, and what a program has written to a file or
a stream stays readable after it has turned to another target.
-/

namespace Socp

/-- A program with the last file and the last stream it has turned away from. -/
structure Member (α : Type) where
  program : Program α
  formerFile : Text
  formerStream : Text

namespace Member

variable {α : Type}

/-- What the last file of the program holds. -/
def fileText (m : Member α) : Text :=
  match m.program.output with
  | .file written => written
  | _ => m.formerFile

/-- What the last stream of the program has taken. -/
def streamText (m : Member α) : Text :=
  match m.program.output with
  | .stream s => s.received
  | _ => m.formerStream

end Member

/-- Programs in the order of their creation. -/
structure Workspace (α : Type) where
  members : Array (Member α)
  console : Text

namespace Workspace

variable {α β : Type}

def empty : Workspace α := ⟨#[], []⟩

/-- The number that the handles of a program carry. The counter is a word of 32 bits and begins
again when it is full. -/
def number (i : Nat) : UInt32 := .ofNat i

/-- Adds a program; its number is the next one. -/
def addProgram (ws : Workspace α) (settings : Settings α) : Nat × Workspace α :=
  (ws.members.size, { ws with
    members := ws.members.push ⟨.empty (number ws.members.size).toNat settings, [], []⟩ })

/-- Moves what a program has printed on the console to the shared one. -/
def drain (program : Program α) : Text × Program α :=
  match program.output with
  | .console printed => (printed, { program with output := .console [] })
  | _ => ([], program)

/-- Runs an operation on one of the programs; there is no answer if there is no such program. -/
def run (ws : Workspace α) (i : Nat) (operation : ProgramM α β) :
    Option (Except Fault β × Workspace α) := do
  let member ← ws.members[i]?
  let (answer, program) :=
    match operation.run member.program with
    | .ok b program => (.ok b, program)
    | .error fault program => (.error fault, program)
  let (printed, program) := drain program
  return (answer, {
    members := ws.members.setIfInBounds i { member with program := program }
    console := ws.console ++ printed })

def printTo (ws : Workspace α) (i : Nat) (target : PrintTarget) : Workspace α :=
  { ws with
    members := ws.members.modify i fun m =>
      { program := m.program.printTo target
        formerFile := m.fileText
        formerStream := m.streamText } }

def takeConsole (ws : Workspace α) : Text × Workspace α := (ws.console, { ws with console := [] })

end Workspace

end Socp
