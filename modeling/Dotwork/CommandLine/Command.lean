import Dotwork.CommandLine.Arguments
import Dotwork.Layout.Json
import Dotwork.Line
import Dotwork.Settings.Form
import Dotwork.Toml.Reader

/-!
# The command

The command looks up its settings, reads one line of notation, and writes its layout or its canonical text.
What it needs of the world around it is a record of operations, so that the same command runs on a disk and on
a folder in memory.
-/

namespace Dotwork

def Settings.ofToml? (text : String) : Option Settings :=
  (Toml.ofText? text).bind (ofDocument? .toml)

namespace CommandLine

/-- What the command asks of the world: whether there is something under a path, the text of a file and of the
    standard input, a place to write to, the standard output, and where a user keeps settings. -/
structure World (m : Type → Type) where
  has : String → m Bool
  read : String → m (Except FileFault String)
  readInput : m (Except FileFault String)
  write : String → String → m (Except FileFault Unit)
  print : String → m Unit
  userSettings : m (Option String)

/-- The path of the settings next to the work at hand. -/
def localSettings : String :=
  "dotnote/config.toml"

/-- The settings that a text holds; a nesting limit of zero would refuse every group. -/
def settingsOf (text : String) : Except FileFault Settings :=
  match Settings.ofToml? text with
  | none => .error .settingsMalformed
  | some s => if s.maxDepth = 0 then .error .depthZero else .ok s

/-- The result of the command for a line. -/
def result (canonical : Bool) (s : Settings) (line : String) : Except Problem String :=
  if canonical then Row.canonical s line else (Layout.ofLine s line).map (·.text)

section
variable {m : Type → Type} [Monad m] (w : World m)

def loadFile (path : String) : m (Except FileFault Settings) := do
  if ← w.has path then return (← w.read path).bind settingsOf
  else return .error (.settingsMissing path)

/-- The settings to work with: those of the given file, or else those at hand, or else those of the user, or
    else the defaults. -/
def load (given : Option String) : m (Except FileFault Settings) := do
  match given with
  | some path => loadFile w path
  | none =>
    if ← w.has localSettings then loadFile w localSettings
    else
      match ← w.userSettings with
      | none => return .ok {}
      | some path => if ← w.has path then loadFile w path else return .ok {}

/-- Reads the file of a path, or the standard input for a dash. -/
def readSource (input : String) : m (Except FileFault String) :=
  if input = "-" then w.readInput else w.read input

/-- Writes a text and a line break to a file, or to the standard output where none is named. -/
def writeResult (output : Option String) (text : String) : m (Except FileFault Unit) := do
  match output with
  | some path => w.write path (text ++ "\n")
  | none =>
    w.print (text ++ "\n")
    return .ok ()

/-- Does the work that the arguments ask for. -/
def run (a : Arguments) : m (Except Problem Unit) := do
  match ← load w a.config with
  | .error fault => return .error (.file fault)
  | .ok s =>
    match ← readSource w a.input with
    | .error fault => return .error (.file fault)
    | .ok line =>
      match result a.canonical s line with
      | .error problem => return .error problem
      | .ok text => return (← writeResult w a.output text).mapError .file

/-- How the command ends: its exit status, and what it has to say to the user. -/
structure Ending where
  status : Nat
  notices : List Notice

/-- What the command is called, and which version it is. -/
def versionText : String :=
  "dotnote-cli 0.1.0"

def usageText : String :=
  "Usage: dotnote [OPTIONS] [INPUT]\n\n" ++
  "  [INPUT]               Input file path, or - for stdin\n" ++
  "  -o, --output <OUTPUT> Path to the output file; stdout when omitted\n" ++
  "  -c, --config <CONFIG> Path to configuration file (TOML)\n" ++
  "      --canonical       Print the canonical form of the notation instead of the layout JSON\n" ++
  "      --log-level <LOG_LEVEL>\n" ++
  "  -h, --help            Print help\n" ++
  "  -V, --version         Print version"

def Arguments.Stop.message : Arguments.Stop → String
  | .unknownArgument => "unexpected argument"
  | .valueMissing => "an option needs a value"
  | .valueUnneeded => "an option takes no value"
  | .repeated => "an option is given twice"
  | .help => usageText
  | .version => versionText

/-- Runs the command on a list of arguments. It ends with 0 when it did what it was asked, with 1 after a problem,
    and with 2 after a mistake in the arguments. -/
def execute (arguments : List String) : m Ending := do
  match Arguments.ofList arguments with
  | .error .help =>
    w.print (usageText ++ "\n")
    return ⟨0, []⟩
  | .error .version =>
    w.print (versionText ++ "\n")
    return ⟨0, []⟩
  | .error stop => return ⟨2, [{ title := stop.message }]⟩
  | .ok a =>
    match ← run w a with
    | .ok () => return ⟨0, []⟩
    | .error problem => return ⟨1, problem.notices⟩

end

end CommandLine

end Dotwork
