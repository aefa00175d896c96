/-!
# Environments

The variables that a program is run with.  Only those that `environmentNames` lists are ever looked
at.
-/

namespace TestLanes.CommandLine

abbrev Environment := List (String × String)

def Environment.get? (env : Environment) (name : String) : Option String :=
  (env.find? (·.1 = name)).map (·.2)

/-- Whether a variable is there with another value than `off`. -/
def Environment.isOn (env : Environment) (name off : String) : Bool :=
  match env.get? name with
  | some v => v ≠ off
  | none => false

end TestLanes.CommandLine
