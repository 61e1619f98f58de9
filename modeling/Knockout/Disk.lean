import Knockout.KeyMap
import Knockout.Host

namespace Knockout

/-- The files of a directory and its subdirectories by name, and of the directories around it as far as known. -/
structure Disk where
  files : KeyMap ByteArray

namespace Disk

def systemFault (code : Nat) (kind message : String) : Fault :=
  ⟨s!"{message} (os error {code})", s!"Os \x7b code: {code}, kind: {kind}, message: \"{message}\" \x7d"⟩

def missing : Fault := systemFault 2 "NotFound" "No such file or directory"

def notDirectory : Fault := systemFault 20 "NotADirectory" "Not a directory"

def directory : Fault := systemFault 21 "IsADirectory" "Is a directory"

def nameTooLong : Fault := systemFault 36 "InvalidFilename" "File name too long"

abbrev Location := List String

namespace Location

def root : Location := [""]

def isAround (l : Location) : Bool := l.all fun part => part == "" || part == ".."

def name (l : Location) : String := "/".intercalate l.reverse

def up (l : Location) : Location :=
  if l == root then root else if l.isAround then ".." :: l else l.tail

def next (l : Location) (part : String) : Location :=
  if part == "" || part == "." then l else if part == ".." then l.up else part :: l

end Location

def components (path : String) : List String :=
  let add (c : Char) (parts : List (List Char)) :=
    if c = '/' then [] :: parts else (c :: parts.headD []) :: parts.tail
  (path.toList.foldr add [[]]).map String.ofList

def isDirectory (d : Disk) (l : Location) : Bool :=
  l.isAround || d.files.entries.any fun e => e.1.startsWith (l.name ++ "/")

def descend (d : Disk) (l : Location) (part : String) : Except Fault Location :=
  if !d.isDirectory l then .error (if d.files.contains l.name then notDirectory else missing)
  else if 255 < part.utf8ByteSize then .error nameTooLong
  else .ok (l.next part)

def locate (d : Disk) (path : String) (parts : List String) : Except Fault Location :=
  if 4096 ≤ path.utf8ByteSize then .error nameTooLong
  else parts.foldlM d.descend (if path.startsWith "/" then .root else [])

def read (d : Disk) (path : String) : Except Fault ByteArray := do
  let l ← d.locate path (components path)
  match d.files.find? l.name with
  | some bytes => .ok bytes
  | none => .error (if d.isDirectory l then directory else missing)

def write (d : Disk) (path : String) (bytes : ByteArray) : Except Fault Disk := do
  let parts := components path
  let parts := if path.endsWith "/" then ((parts.reverse.dropWhile (· == "")).drop 1).reverse ++ ["."] else parts
  let l ← d.locate path parts
  if path.endsWith "/" || d.isDirectory l then .error directory
  else .ok ⟨d.files.insert l.name bytes⟩

def fileSystem : FileSystem Disk String where
  place? d path := (d.locate path (components path)).toOption.map Location.name
  content? d name := d.files.find? name
  read := read
  write d path bytes :=
    match d.write path bytes with
    | .ok after => (.ok (), after)
    | .error e => (.error e, d)

end Disk

end Knockout
