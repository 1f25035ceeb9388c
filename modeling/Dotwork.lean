import Dotwork.CommandLine.Folder
import Dotwork.Json.Reader
import Dotwork.Layout.Json
import Dotwork.Layout.Placement
import Dotwork.Line
import Dotwork.Main
import Dotwork.Row.Reader
import Dotwork.Row.Text
import Dotwork.Settings.Form
import Dotwork.Token.Lexeme
import Dotwork.Toml.Reader
import Dotwork.Proofs.Grammar
import Dotwork.Proofs.Reading
import Dotwork.Proofs.Nesting
import Dotwork.Proofs.Acceptance
import Dotwork.Proofs.Lexing
import Dotwork.Proofs.Shape
import Dotwork.Proofs.RoundTrip
import Dotwork.Proofs.Context
import Dotwork.Proofs.Drawing
import Dotwork.Proofs.Canvas
import Dotwork.Proofs.Columns
import Dotwork.Proofs.Agreement
import Dotwork.Proofs.Conservation
import Dotwork.Proofs.Places
import Dotwork.Proofs.Membership
import Dotwork.Proofs.Containment
import Dotwork.Proofs.Relocation
import Dotwork.Proofs.Sources
import Dotwork.Proofs.Canonical
import Dotwork.Proofs.Spelling
import Dotwork.Proofs.Stopping
import Dotwork.Proofs.Viability
import Dotwork.Proofs.Classes
import Dotwork.Proofs.Segments
import Dotwork.Proofs.LexicalFaults
import Dotwork.Proofs.Depiction
import Dotwork.Proofs.Limits
import Dotwork.Proofs.Stretches
import Dotwork.Proofs.Union
import Dotwork.Proofs.Provenance
import Dotwork.Proofs.Refusals
import Dotwork.Proofs.Editing
import Dotwork.Proofs.Offenders
import Dotwork.Proofs.Labels
import Dotwork.Proofs.Spacing
import Dotwork.Proofs.Trimming
import Dotwork.Proofs.Guards
import Dotwork.Proofs.Saturation
import Dotwork.Proofs.Bounds
import Dotwork.Proofs.Printing
import Dotwork.Proofs.BlankRuns
import Dotwork.Proofs.Frame
import Dotwork.Proofs.LayoutText
