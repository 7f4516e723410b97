import TypeSketch.Proofs.Json.Soundness

/-! Sources that are read as JSON. The reader looks for UTF-8 only in the content of each quoted text, behind its
escapes; yet what it accepts is UTF-8 from the first byte to the last, so that it is the example of a text. -/
namespace TypeSketch.Example
open Json

private theorem ofSource_of_readToEnd {ε : Type} {source : List (Delivery ε)} {bytes : List UInt8}
    (h : readToEnd source = .ok bytes) : ofSource source = .ok (ofText bytes) := by
  rw [ofSource, h]
  rfl

/-- A text that is replaced stands for the empty object, and the one event says so. -/
theorem replaced_of_not_denoted {bytes : List UInt8} (h : ∀ value, ¬ Denoted bytes value) :
    ∃ category place, ofText bytes = ⟨.object [], [.replaced category place]⟩ := by
  cases hr : read bytes with
  | ok value => exact absurd (read_eq_ok_iff.1 hr) (h value)
  | error fault => exact ⟨fault.category, fault.position bytes, ofText_of_error hr⟩

/-- Only UTF-8 denotes a value. -/
theorem isValidUTF8_of_denoted {bytes : List UInt8} {value : Json} (h : Denoted bytes value) :
    bytes.toByteArray.IsValidUTF8 := by
  obtain ⟨text, he, -⟩ := h
  exact Utf8.isValidUTF8_iff.2 ⟨text, he⟩

/-- A source that is read as a value delivered the UTF-8 of a text, and that text stands for the same value. A source
that delivered anything else is replaced by the empty object, wherever in it the ill-formed bytes are. -/
theorem ofSource_isValidUTF8 {ε : Type} {source : List (Delivery ε)} {bytes : List UInt8}
    (h : readToEnd source = .ok bytes) :
    (∀ value, ofSource source = .ok ⟨value, []⟩ → ∃ valid : bytes.toByteArray.IsValidUTF8,
      ofText (Utf8.encode (String.fromUTF8 bytes.toByteArray valid).toList) = ⟨value, []⟩) ∧
    (¬ bytes.toByteArray.IsValidUTF8 →
      ∃ category place, ofSource source = .ok ⟨.object [], [.replaced category place]⟩) := by
  rw [ofSource_of_readToEnd h]
  constructor
  · intro value hv
    have htext : ofText bytes = ⟨value, []⟩ := Except.ok.inj hv
    have hdenoted : Denoted bytes value := read_eq_ok_iff.1 (ofText_eq_pure_iff.1 htext)
    refine ⟨isValidUTF8_of_denoted hdenoted, ?_⟩
    rw [Utf8.encode_fromUTF8, htext]
  · intro hn
    obtain ⟨category, place, he⟩ := replaced_of_not_denoted fun value hv => hn (isValidUTF8_of_denoted hv)
    exact ⟨category, place, congrArg Except.ok he⟩

def torn : List UInt8 := [34, 195, 92, 117, 48, 48, 97, 57, 34]

/-- A character that comes in two pieces, and one that an escape is put into. -/
theorem ofSource_isValidUTF8_pieces :
    (readToEnd (ε := Unit) [.bytes [34, 195], .bytes [169, 34]] = .ok [34, 195, 169, 34] ∧
      ofSource (ε := Unit) [.bytes [34, 195], .bytes [169, 34]] = .ok ⟨.string "é", []⟩ ∧
      ∃ valid : [34, 195, 169, 34].toByteArray.IsValidUTF8,
        ofText (Utf8.encode (String.fromUTF8 [34, 195, 169, 34].toByteArray valid).toList) = ⟨.string "é", []⟩) ∧
    (readToEnd (ε := Unit) [.bytes torn] = .ok torn ∧ ¬ torn.toByteArray.IsValidUTF8 ∧
      ∃ category place, ofSource (ε := Unit) [.bytes torn] = .ok ⟨.object [], [.replaced category place]⟩) := by
  have hpieces : readToEnd (ε := Unit) [.bytes [34, 195], .bytes [169, 34]] = .ok [34, 195, 169, 34] := by rfl
  have hwritten : Quoted.Written ['"', 'é', '"'] ['é'] := .mk (.cons (.raw (by decide) (by decide) (by decide)) .nil)
  have hdenoted : Denoted [34, 195, 169, 34] (.string "é") :=
    ⟨['"', 'é', '"'], by decide, ⟨[], _, [], _⟩, ⟨isGap_nil, isGap_nil⟩, .string hwritten, rfl, rfl⟩
  have hread : ofSource (ε := Unit) [.bytes [34, 195], .bytes [169, 34]] = .ok ⟨.string "é", []⟩ := by
    rw [ofSource_of_readToEnd hpieces, ofText_eq_pure_iff.2 (read_eq_ok_iff.2 hdenoted)]
  have htorn : readToEnd (ε := Unit) [.bytes torn] = .ok torn := by rfl
  have hinvalid : ¬ torn.toByteArray.IsValidUTF8 := by
    rw [Utf8.isValidUTF8_iff]
    rintro ⟨text, he⟩
    have hdecode : (Utf8.decode torn).2 ≠ [] := by decide +kernel
    rw [he, Utf8.decode_encode] at hdecode
    exact hdecode rfl
  exact ⟨⟨hpieces, hread, (ofSource_isValidUTF8 hpieces).1 _ hread⟩, htorn, hinvalid,
    (ofSource_isValidUTF8 htorn).2 hinvalid⟩

end TypeSketch.Example
