import TypeSketch.Main
import TypeSketch.FileTree
import TypeSketch.Json.Compact
import TypeSketch.Proofs.Json.Grammar
import TypeSketch.Proofs.Text.Utf8
import TypeSketch.Proofs.Json.Numeral
import TypeSketch.Proofs.Json.Quoted
import TypeSketch.Proofs.Json.Completeness
import TypeSketch.Proofs.Json.Soundness
import TypeSketch.Proofs.Json.Stability
import TypeSketch.Proofs.Json.RoundTrip
import TypeSketch.Proofs.Number.Rounding
import TypeSketch.Proofs.Number.Kind
import TypeSketch.Proofs.Json.Position
import TypeSketch.Proofs.Source
import TypeSketch.Proofs.Schedule
import TypeSketch.Proofs.Run
import TypeSketch.Proofs.Naming
import TypeSketch.Proofs.Output
import TypeSketch.Proofs.Guess
import TypeSketch.Proofs.Lists
import TypeSketch.Proofs.Fields
import TypeSketch.Proofs.Json.Verbatim
import TypeSketch.Proofs.Signature
import TypeSketch.Proofs.Report
import TypeSketch.Proofs.Json.Refusal
import TypeSketch.Proofs.Naming.RoundTrip
import TypeSketch.Proofs.Json.Tagged
import TypeSketch.Proofs.Spine
import TypeSketch.Proofs.Naming.Conversions
import TypeSketch.Proofs.Unreadable
import TypeSketch.Proofs.Json.Escapes
import TypeSketch.Proofs.Codec
import TypeSketch.Proofs.FileTree
