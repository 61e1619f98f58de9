namespace Knockout

inductive Level where
  | info
  | debug
  | trace
deriving DecidableEq, Repr

/-- The least urgent level of which records are written, unless the environment says otherwise. -/
inductive LevelFilter where
  | warn
  | info
  | debug
  | trace
deriving DecidableEq, Repr

def LevelFilter.ofVerbosity : Nat → LevelFilter
  | 0 => warn
  | 1 => info
  | 2 => debug
  | _ => trace

inductive Component where
  | program
  | settings
  | commands
  | scanner
  | document
  | info
  | teams
  | bracket
  | standings
  | scorers
  | findings
  | graph
deriving DecidableEq, Repr

structure LogLine where
  level : Level
  component : Component
  message : String
deriving DecidableEq, Repr

end Knockout
