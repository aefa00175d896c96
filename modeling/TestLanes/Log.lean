/-!
# Log lines

What a computation has to say beside its result, in order.

A `Logged` value is a result with the lines said on the way to it, and binding appends the lines of
the second computation to those of the first.  Nothing is printed while a computation runs: which
lines are shown, and how, is settled afterwards by the log filter, so that every statement about a
computation covers its lines as well as its result.
-/

namespace TestLanes

/-- How grave a line is. -/
inductive Level where
  | error
  | warning
  | info
  | debug
deriving Repr, DecidableEq

def Level.name : Level → String
  | .error => "error"
  | .warning => "warning"
  | .info => "info"
  | .debug => "debug"

/-- One line, from the part of the program that `topic` names. -/
structure LogLine where
  level : Level
  topic : String
  text : String
deriving Repr, DecidableEq

/-- A result and the lines said on the way to it. -/
structure Logged (α : Type) where
  value : α
  lines : List LogLine := []

namespace Logged

instance : Monad Logged where
  pure a := ⟨a, []⟩
  bind x f := ⟨(f x.value).value, x.lines ++ (f x.value).lines⟩

def say (level : Level) (topic text : String) : Logged Unit := ⟨(), [⟨level, topic, text⟩]⟩

end Logged

end TestLanes
