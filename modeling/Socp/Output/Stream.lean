/-!
Streams that may take less than they are offered, or refuse. What a stream does with an attempt is
a function of the attempts before it, so every pattern of refusals is covered. The text written
here is ASCII throughout, so a character is a byte.
-/

namespace Socp

abbrev Text := List Char

/-- What was offered to a stream and how much of it was taken. Taking nothing is a failure. -/
structure Attempt where
  offered : Text
  taken : Nat

namespace Attempt

def accepted (a : Attempt) : Text := a.offered.take a.taken

def failed (a : Attempt) : Bool := a.taken = 0

end Attempt

/-- A stream with the attempts made so far, the latest first. -/
structure TextStream where
  accepts : List Attempt → Text → Nat
  attempts : List Attempt

namespace TextStream

def unlimited : TextStream := ⟨fun _ offered => offered.length, []⟩

/-- Takes `limit` characters in all. The attempt after that fails, and with it all later ones,
unless the stream recovers from its first failure and takes everything from then on. -/
def limited (limit : Nat) (recovers : Bool) : TextStream where
  accepts attempts offered :=
    if recovers && attempts.any Attempt.failed then offered.length
    else limit - (attempts.flatMap Attempt.accepted).length
  attempts := []

def received (s : TextStream) : Text := s.attempts.reverse.flatMap Attempt.accepted

/-- Makes one attempt; the first component tells how much was taken. -/
def write (s : TextStream) (text : Text) : Nat × TextStream :=
  let taken := min (s.accepts s.attempts text) text.length
  (taken, { s with attempts := ⟨text, taken⟩ :: s.attempts })

/-- Offers what is left of a text until all of it is taken or an attempt fails. -/
def writeAll (s : TextStream) (text : Text) : Bool × TextStream :=
  if text = [] then (true, s)
  else
    let (taken, s) := s.write text
    if taken = 0 then (false, s) else s.writeAll (text.drop taken)
termination_by text.length
decreasing_by
  have : 0 < text.length := List.length_pos_iff.2 (by assumption)
  simp only [List.length_drop]
  omega

/-- Writes the pieces in order and gives up the rest at the first failure. -/
def writePieces (s : TextStream) : List Text → Bool × TextStream
  | [] => (true, s)
  | piece :: rest =>
    match s.writeAll piece with
    | (true, s) => s.writePieces rest
    | (false, s) => (false, s)

@[simp] theorem received_write (s : TextStream) (text : Text) :
    (s.write text).2.received = s.received ++ text.take (s.write text).1 := by
  simp [write, received, Attempt.accepted]

end TextStream

end Socp
