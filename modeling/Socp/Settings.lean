import Socp.Scalar

/-!
What a program can be configured with, and the test for a sensible tolerance.
-/

namespace Socp

structure Settings (α : Type) where
  /-- Whether lending and taking back the matrices is reported. -/
  verbose : Bool
  feasibilityTol : α
  /-- Whether a zero coefficient removes a term, rather than being stored. -/
  dropZeros : Bool
deriving BEq

inductive SettingsError
  | badField (name : String)
deriving DecidableEq, Repr

def SettingsError.message : SettingsError → String
  | .badField name => "Bad value for field \"" ++ name ++ "\""

/-- Choices for some of the settings. -/
structure SettingsChoice (α : Type) where
  verbose : Option Bool
  feasibilityTol : Option α
  dropZeros : Option Bool

variable {α : Type}

/-- Overwrites the chosen fields, whatever their values. -/
def Settings.override (s : Settings α) (choice : SettingsChoice α) : Settings α where
  verbose := choice.verbose.getD s.verbose
  feasibilityTol := choice.feasibilityTol.getD s.feasibilityTol
  dropZeros := choice.dropZeros.getD s.dropZeros

variable [Scalar α]

/-- A tolerance is a finite number that is not negative. -/
def checkTolerance (tol : α) : Except SettingsError Unit :=
  if Scalar.isFinite tol ∧ 0 ≤ tol then .ok () else .error (.badField "feasibility_tol")

namespace Settings

def standard : Settings α := ⟨false, Scalar.defaultTolerance, true⟩

def validate (s : Settings α) : Except SettingsError Unit := checkTolerance s.feasibilityTol

end Settings

namespace SettingsChoice

def validate (choice : SettingsChoice α) : Except SettingsError Unit :=
  match choice.feasibilityTol with
  | some tol => checkTolerance tol
  | none => .ok ()

/-- The standard settings with the chosen fields, if those are sensible. -/
def build (choice : SettingsChoice α) : Except SettingsError (Settings α) := do
  choice.validate
  return Settings.standard.override choice

end SettingsChoice

end Socp
