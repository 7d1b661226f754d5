import Montage.Number.Reading

/-! The variables that a process is started with. -/

namespace Montage

abbrev Environment := List (String × String)

namespace Environment

def get? (environment : Environment) (name : String) : Option String :=
  environment.lookup name

/-- The value of a variable that holds a natural number up to `limit`. Any other text counts as if
the variable were not set. -/
def natural? (environment : Environment) (name : String) (limit : Nat) : Option Nat :=
  (environment.get? name).bind fun value => Number.readNatural limit value.toList

end Environment

end Montage
