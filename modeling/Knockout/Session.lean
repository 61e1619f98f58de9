namespace Knockout

/-- An error of a library or of the operating system: its text, and the form in which it is logged. -/
structure Fault where
  message : String
  logText : String
deriving DecidableEq, Repr

inductive Session (α : Type) where
  | done (answer : α)
  | read (path : String) (next : Except Fault String → Session α)
  | write (path text : String) (next : Except Fault Unit → Session α)

namespace Session

variable {α : Type} {m : Type → Type} [Monad m]

def run (read : String → m (Except Fault String)) (write : String → String → m (Except Fault Unit)) :
    Session α → m α
  | done answer => pure answer
  | .read path next => do run read write (next (← read path))
  | .write path text next => do run read write (next (← write path text))

end Session

end Knockout
