import Dotwork.CommandLine.Command

/-! The command on a disk: files, environment and the standard streams. -/

namespace Dotwork.CommandLine

def faultOf : IO.Error → FileFault
  | .noFileOrDirectory .. => .missing
  | e => .other (toString e)

def textOf (bytes : ByteArray) : Except FileFault String :=
  match String.fromUTF8? bytes with
  | some text => .ok text
  | none => .error .invalidText

/-- Runs an operation on files and names its fault. -/
def attempt {α : Type} (operation : IO α) : IO (Except FileFault α) := do
  match ← operation.toBaseIO with
  | .ok a => return .ok a
  | .error e => return .error (faultOf e)

/-- Where a user keeps settings: in the folder that the environment names, or under the user's own. -/
def userSettings : IO (Option String) := do
  let own := (← IO.getEnv "HOME").map (· ++ "/.config")
  let named := (← IO.getEnv "XDG_CONFIG_HOME").filter (·.startsWith "/")
  return (named <|> own).map (· ++ "/" ++ localSettings)

/-- The world of a command on a disk. -/
def disk : World IO where
  has path := do return (← attempt (IO.FS.Handle.mk path .read)).toBool
  read path := do return (← attempt (IO.FS.readBinFile path)).bind textOf
  readInput := do return (← attempt (do (← IO.getStdin).readBinToEnd)).bind textOf
  write path text := attempt (IO.FS.writeFile path text)
  print text := do
    let output ← IO.getStdout
    output.putStr text
    output.flush
  userSettings := userSettings

/-- The lines that tell a user about a notice. -/
def noticeText (n : Notice) : String :=
  let code := n.code.elim "" fun code => s!"[{code}]"
  let labels := (n.labels.getD []).map fun l => s!"\n  {l.span.text}: {l.message}"
  let help := n.help.elim "" fun help => s!"\n  help: {help}"
  s!"error{code}: {n.title}" ++ String.join labels ++ help

end Dotwork.CommandLine

open Dotwork.CommandLine in
/-- Runs the command and tells the user about its problems. -/
def main (arguments : List String) : IO UInt32 := do
  let ending ← execute disk arguments
  for n in ending.notices do
    IO.eprintln (noticeText n)
  return ending.status.toUInt32
