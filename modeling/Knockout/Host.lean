import Knockout.Log
import Knockout.Session
import Knockout.Settings

namespace Knockout

/-- What the program leaves to libraries: to decode its settings, and to write a record after so many other notes. -/
structure Host where
  settings : String → Except Fault Settings
  record : LevelFilter → Nat → LogLine → String

/-- The operations of an operating system on its files. A path leads to a place whether there is a file or not. -/
structure FileSystem (State File : Type) where
  place? : State → String → Option File
  content? : State → File → Option ByteArray
  read : State → String → Except Fault ByteArray
  write : State → String → ByteArray → Except Fault Unit × State

def Fault.notUtf8 : Fault :=
  let message := "stream did not contain valid UTF-8"
  ⟨message, s!"Error \x7b kind: InvalidData, message: \"{message}\" \x7d"⟩

namespace FileSystem

variable {State File : Type} (fs : FileSystem State File)

def readText (state : State) (path : String) : Except Fault String := do
  let bytes ← fs.read state path
  (String.fromUTF8? bytes).elim (.error .notUtf8) .ok

def perform {α : Type} (s : Session α) : StateM State α :=
  s.run (fun path => return fs.readText (← get) path) fun path text => do
    let (result, after) := fs.write (← get) path text.toUTF8
    set after
    return result

end FileSystem

end Knockout
