import TypeSketch.Json.Reader
import TypeSketch.Log
import TypeSketch.Source

/-! The example that types are guessed from: the value of a JSON text. A text that is no JSON counts as the empty
object, so every text is one; only a source that cannot be read to its end gives no example. -/
namespace TypeSketch.Example

/-- The value of a text, or the empty object, and an event, if it is not JSON. -/
def ofText (text : List UInt8) : Logged Json :=
  match Json.read text with
  | .ok value => pure value
  | .error fault => do
    .tell (.replaced fault.category (fault.position text))
    pure (.object [])

/-- A text that is read stands for its value. -/
theorem ofText_of_ok {text : List UInt8} {value : Json} (h : Json.read text = .ok value) :
    ofText text = ⟨value, []⟩ := by
  rw [ofText, h]
  rfl

/-- A text with a fault stands for the empty object, and one event tells of the fault. -/
theorem ofText_of_error {text : List UInt8} {fault : Fault} (h : Json.read text = .error fault) :
    ofText text = ⟨.object [], [.replaced fault.category (fault.position text)]⟩ := by
  rw [ofText, h]
  rfl

def ofSource {ε : Type} (source : List (Delivery ε)) : Except ε (Logged Json) :=
  ofText <$> readToEnd source

end TypeSketch.Example
