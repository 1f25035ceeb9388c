import Dotwork.Diagnostic
import Dotwork.Layout.Placement

/-!
# Problems

A problem is whatever keeps a line of notation from its result: the line itself, its layout, or the files
around it. A user sees it as notices, each with a title, a way out, and labels on the line.
-/

namespace Dotwork

/-- Why a file or a settings file could not be used. -/
inductive FileFault
  | missing
  | directory
  | throughFile
  | nameTooLong
  | nulInName
  | invalidText
  | settingsMissing (path : String)
  | settingsMalformed
  | depthZero
  | other (text : String)
deriving DecidableEq

def FileFault.message : FileFault → String
  | .missing => "No such file or directory (os error 2)"
  | .directory => "Is a directory (os error 21)"
  | .throughFile => "Not a directory (os error 20)"
  | .nameTooLong => "File name too long (os error 36)"
  | .nulInName => "file name contained an unexpected NUL byte"
  | .invalidText => "stream did not contain valid UTF-8"
  | .settingsMissing path => s!"Missing configuration file: {path}"
  | .settingsMalformed => "Failed to parse TOML configuration"
  | .depthZero => "Validation error: `parser.max_depth` must be at least 1"
  | .other text => text

/-- What keeps a line from its result. -/
inductive Problem
  | file (fault : FileFault)
  | reading (report : Diagnostic.Report)
  | placing (fault : Layout.Fault)
  | writing (text : String)
deriving DecidableEq

/-- A problem as a user sees it. The cause repeats what lies beneath the title, and the labels are absent where
    there is no line to put them on. -/
structure Notice where
  title : String
  code : Option String := none
  help : Option String := none
  cause : Option String := none
  onLine : Bool := false
  labels : Option (List Diagnostic.Label) := none
deriving DecidableEq

namespace Problem

/-- The one-line text of a problem. -/
def message : Problem → String
  | .file fault => s!"I/O error: {fault.message}"
  | .reading report => report.text
  | .placing fault => fault.message
  | .writing text => s!"Export error: {text}"

/-- The notice of one diagnostic; without labels it marks nothing on the line. -/
def diagnosticNotice (d : Diagnostic) : Notice where
  title := d.message
  code := d.code.map (·.text)
  help := d.help
  onLine := true
  labels := if d.labels.isEmpty then none else some d.labels

/-- The notices of a problem: one for each diagnostic of a line, and one for any other problem. -/
def notices : Problem → List Notice
  | .reading report => report.map diagnosticNotice
  | .placing fault =>
    [{ title := fault.message
       code := some "dotnote::layout"
       help := some fault.help
       onLine := true
       labels := some [⟨fault.span, fault.label, true⟩] }]
  | p@(.file fault) => [{ title := p.message, code := some "dotnote::io", cause := some fault.message }]
  | p@(.writing _) => [{ title := p.message, code := some "dotnote::export" }]

end Problem

end Dotwork
