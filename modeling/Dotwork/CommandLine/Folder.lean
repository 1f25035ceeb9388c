import Dotwork.CommandLine.Command

/-!
# A folder in memory

A folder holds files by their places, and the folders on the way to them. A path is walked step by step, each one
from a folder that is there. The command runs on a folder as it does on a disk, and what it read and wrote can be
looked at afterwards.
-/

namespace Dotwork.CommandLine

/-- Where a way through folders starts: at the topmost folder, or so many levels above the folder at hand. -/
inductive Origin
  | topmost
  | above (levels : Nat)
deriving DecidableEq

/-- The folder around an origin; nothing is around the topmost one. -/
def Origin.up : Origin → Origin
  | .topmost => .topmost
  | .above levels => .above (levels + 1)

/-- A place among folders: the names on the way down to it from an origin. -/
structure Place where
  origin : Origin
  names : List String
deriving DecidableEq

namespace Place

def here : Place :=
  ⟨.above 0, []⟩

def down (p : Place) (name : String) : Place :=
  ⟨p.origin, p.names ++ [name]⟩

def up (p : Place) : Place :=
  if p.names = [] then ⟨p.origin.up, []⟩ else ⟨p.origin, p.names.dropLast⟩

/-- Whether a place lies somewhere beneath another one. -/
def isBeneath (p above : Place) : Bool :=
  p.origin == above.origin && above.names.isPrefixOf p.names && p != above

/-- The place that a step from a folder leads to: an empty step and a dot stay there, and two dots lead up. -/
def step (p : Place) (name : String) : Place :=
  if name = "" ∨ name = "." then p else if name = ".." then p.up else p.down name

/-- Where the steps of a path start. -/
def startOf (path : String) : Place :=
  if path.startsWith "/" then ⟨.topmost, []⟩ else here

/-- The place that a path leads to if there are folders all the way. -/
def ofPath (path : String) : Place :=
  (path.splitOn "/").foldl step (startOf path)

end Place

/-- Files by their places, as bytes. A folder is there when it holds a file somewhere beneath it; the folder at
    hand and those above it are always there. -/
structure Folder where
  files : List (Place × ByteArray)

/-- What stands at a place. -/
inductive Folder.Item
  | file (bytes : ByteArray)
  | folder
  | nothing

namespace Folder

/-- What stands at a place. -/
def item (f : Folder) (p : Place) : Item :=
  match f.files.find? (·.1 == p) with
  | some (_, bytes) => .file bytes
  | none => if p.names.isEmpty || f.files.any (·.1.isBeneath p) then .folder else .nothing

/-- Takes one step of a path, which has to start from a folder. A name has at most 255 bytes. -/
def walk (f : Folder) (p : Place) (name : String) : Except FileFault Place :=
  match f.item p with
  | .nothing => .error .missing
  | .file _ => .error .throughFile
  | .folder => if 255 < name.utf8ByteSize then .error .nameTooLong else .ok (p.step name)

/-- The steps of a path. One without any leads nowhere, and no path has more than 4095 bytes. -/
def stepsOf (path : String) : Except FileFault (List String) :=
  if path.toList.contains '\x00' then .error .nulInName
  else if path.isEmpty then .error .missing
  else if 4095 < path.utf8ByteSize then .error .nameTooLong
  else .ok (path.splitOn "/")

/-- What a path leads to. Every step of it but the last has to lead to a folder, also when an empty one follows. -/
def look (f : Folder) (path : String) : Except FileFault Item := do
  return f.item (← (← stepsOf path).foldlM f.walk (Place.startOf path))

def has (f : Folder) (path : String) : Bool :=
  match f.look path with
  | .ok (.file _) | .ok .folder => true
  | .ok .nothing | .error _ => false

def read (f : Folder) (path : String) : Except FileFault String := do
  match ← f.look path with
  | .nothing => throw .missing
  | .folder => throw .directory
  | .file bytes =>
    match String.fromUTF8? bytes with
    | some text => return text
    | none => throw .invalidText

def put (f : Folder) (p : Place) (bytes : ByteArray) : Folder :=
  ⟨(p, bytes) :: f.files.filter (·.1 != p)⟩

/-- Writes the file at a path. The last step has to be the name of a file in a folder that is there; with nothing
    but separators behind it, it names a folder. -/
def write (f : Folder) (path text : String) : Except FileFault Folder := do
  let steps ← stepsOf path
  match steps.reverse.dropWhile (· == "") with
  | [] => throw .directory
  | name :: before =>
    let parent ← f.walk (← before.reverse.foldlM f.walk (Place.startOf path)) "."
    if steps.getLast? = some "" ∨ name = "." ∨ name = ".." then throw .directory
    let p ← f.walk parent name
    match f.item p with
    | .folder => throw .directory
    | .file _ | .nothing => return f.put p text.toUTF8

end Folder

/-- All that a command in memory sees and leaves: a folder, what is on the standard input, what was printed, and
    where the user keeps settings. -/
structure Desk where
  folder : Folder
  input : String := ""
  printed : String := ""
  userSettings : Option String := none

/-- The world of a command in memory. -/
def Desk.world : World (StateM Desk) where
  has path := do return (← get).folder.has path
  read path := do return (← get).folder.read path
  readInput := do return .ok (← get).input
  write path text := do
    let d ← get
    match d.folder.write path text with
    | .error fault => return .error fault
    | .ok folder =>
      set { d with folder }
      return .ok ()
  print text := modify fun d => { d with printed := d.printed ++ text }
  userSettings := do return (← get).userSettings

end Dotwork.CommandLine
