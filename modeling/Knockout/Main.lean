import Knockout.Shell

namespace Knockout.Shell

def fault (error : IO.Error) : Fault := ⟨toString error, toString error⟩

def readText (path : String) : IO (Except Fault String) := do
  try
    let bytes ← IO.FS.readBinFile path
    return (String.fromUTF8? bytes).elim (.error .notUtf8) .ok
  catch error => return .error (fault error)

def writeText (path text : String) : IO (Except Fault Unit) := do
  try
    IO.FS.writeFile path text
    return .ok ()
  catch error => return .error (fault error)

def program (host : Host) (usage : String) (args : List String) : IO UInt32 := do
  match Arguments.parse? args with
  | none =>
    (← IO.getStderr).putStr usage
    return 2
  | some .version =>
    (← IO.getStdout).putStr versionText
    return 0
  | some (.run request) =>
    let answer ← (Shell.run host request).run readText writeText
    (← IO.getStderr).putStr (answer.stderr host request)
    (← IO.getStdout).putStr answer.stdout
    return answer.exit

end Knockout.Shell
