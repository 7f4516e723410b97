import TypeSketch.Example

/-! What more text can change about a refusal. A byte that is refused stays refused, in the same place, so only a
fault that the end of the text makes can be another one when the text goes on. -/
namespace TypeSketch

/-- The place of a fault does not depend on what follows it. -/
theorem Fault.position_append (front back : List UInt8) (fault : Fault) :
    Fault.position (front ++ back) { fault with left := fault.left ++ back } = fault.position front := by
  have htake : (front ++ back).take ((front ++ back).length - (fault.left ++ back).length) =
      front.take (front.length - fault.left.length) := by
    rw [List.length_append, List.length_append, Nat.add_sub_add_right]
    exact List.take_append_of_le_length (Nat.sub_le _ _)
  simp only [Fault.position, htake]

namespace Reader

private theorem feed_unquoted {outer : List Frame} {stage : Numeral.Stage} {read : List Char} {text : List UInt8}
    {next : Reader} (h : feed ⟨.tagged :: outer, .numeral stage read⟩ text = .ok next) :
    ∃ stage read, next = ⟨.tagged :: outer, .numeral stage read⟩ := by
  induction text generalizing stage read with
  | nil =>
    cases h
    exact ⟨stage, read, rfl⟩
  | cons byte text ih =>
    simp only [feed, step] at h
    split at h
    · rename_i behind hs
      split at hs
      · cases hs
        exact ih h
      · cases hs
      · cases hs
    · cases h

private theorem finish_unquoted (outer : List Frame) (stage : Numeral.Stage) (read : List Char) (value : Json) :
    finish ⟨.tagged :: outer, .numeral stage read⟩ ≠ .ok value := by
  intro h
  simp only [finish] at h
  split at h <;> cases h

/-- The end of the text makes no fault that a byte makes: the text is incomplete, or a numeral that should
have been quoted is complete only now. -/
theorem finish_fault {reader : Reader} {fault : Fault} (h : reader.finish = .error fault) :
    fault.category = .incomplete ∨
      fault.category = .mistyped ∧ ∃ outer stage read, reader = ⟨.tagged :: outer, .numeral stage read⟩ := by
  obtain ⟨frames, place⟩ := reader
  unfold finish at h
  split at h
  · cases h
  · rename_i stage read he
    cases he
    split at h
    · split at h
      · cases h
      · cases h
        exact .inr ⟨rfl, _, stage, read, rfl⟩
      · cases h
        exact .inl rfl
    · cases h
      exact .inl rfl
  · cases h
    exact .inl rfl

end Reader

namespace Json

/-- A refused byte is refused in the same place whatever follows it. -/
theorem read_append_of_feed {front : List UInt8} {fault : Fault} (h : Reader.start.feed front = .error fault)
    (back : List UInt8) : read (front ++ back) = .error { fault with left := fault.left ++ back } := by
  rw [read, Reader.feed_append, h]
  rfl

/-- A fault is one of a byte, or one that the end of the text makes in the reader there. -/
theorem fault_cases {text : List UInt8} {fault : Fault} (h : read text = .error fault) :
    Reader.start.feed text = .error fault ∨
      ∃ reader, Reader.start.feed text = .ok reader ∧ reader.finish = .error fault := by
  unfold read at h
  cases hf : Reader.start.feed text with
  | error first =>
    rw [hf] at h
    cases h
    exact .inl rfl
  | ok reader =>
    rw [hf] at h
    exact .inr ⟨reader, rfl, h⟩

/-- A malformed text is refused at a byte and not at its end. -/
theorem feed_of_malformed {text : List UInt8} {fault : Fault} (h : read text = .error fault)
    (hc : fault.category = .malformed) : Reader.start.feed text = .error fault := by
  rcases fault_cases h with hf | ⟨reader, -, hf⟩
  · exact hf
  · rcases Reader.finish_fault hf with hi | ⟨hm, -⟩
    · rw [hi] at hc
      cases hc
    · rw [hm] at hc
      cases hc

/-- A malformed text is malformed in the same place whatever follows it. -/
theorem read_append_of_malformed {front : List UInt8} {fault : Fault} (h : read front = .error fault)
    (hc : fault.category = .malformed) (back : List UInt8) :
    read (front ++ back) = .error { fault with left := fault.left ++ back } :=
  read_append_of_feed (feed_of_malformed h hc) back

/-- A mistyped text is refused whatever follows it. -/
theorem read_append_of_mistyped {front : List UInt8} {fault : Fault} (h : read front = .error fault)
    (hc : fault.category = .mistyped) (back : List UInt8) : ∃ fault, read (front ++ back) = .error fault := by
  rcases fault_cases h with hf | ⟨reader, hr, hf⟩
  · exact ⟨_, read_append_of_feed hf back⟩
  · rcases Reader.finish_fault hf with hi | ⟨-, outer, stage, digits, rfl⟩
    · rw [hi] at hc
      cases hc
    · -- the numeral is complete only at the end, so what follows could go on with it, but never close it
      cases hv : read (front ++ back) with
      | error behind => exact ⟨behind, rfl⟩
      | ok value =>
        simp only [read, Reader.feed_append, hr] at hv
        cases hb : Reader.feed ⟨.tagged :: outer, .numeral stage digits⟩ back with
        | error behind =>
          rw [hb] at hv
          cases hv
        | ok next =>
          rw [hb] at hv
          obtain ⟨stage, digits, rfl⟩ := Reader.feed_unquoted hb
          exact absurd hv (Reader.finish_unquoted outer stage digits value)

end Json

namespace Example

/-- Nothing is told exactly of the texts that are read. -/
theorem events_eq_nil_iff {text : List UInt8} :
    (ofText text).events = [] ↔ ∃ value, Json.read text = .ok value := by
  cases h : Json.read text with
  | ok value => simp [ofText_of_ok h]
  | error fault => simp [ofText_of_error h]

/-- A replacement is told exactly of the texts with such a fault. -/
theorem events_eq_replaced_iff {text : List UInt8} {category : Fault.Category} {place : Position} :
    (ofText text).events = [.replaced category place] ↔
      ∃ fault, Json.read text = .error fault ∧ fault.category = category ∧ fault.position text = place := by
  cases h : Json.read text with
  | ok value => simp [ofText_of_ok h]
  | error fault => simp [ofText_of_error h]

/-- Text behind a malformed one changes nothing; behind a mistyped one it leaves it refused; and so what stands in
front of any rest of a text that is JSON is JSON too or incomplete. -/
theorem ofText_append (front back : List UInt8) :
    (∀ place, (ofText front).events = [.replaced .malformed place] → ofText (front ++ back) = ofText front) ∧
    (∀ place, (ofText front).events = [.replaced .mistyped place] →
      ∃ category place, (ofText (front ++ back)).events = [.replaced category place]) ∧
    ((ofText (front ++ back)).events = [] →
      (ofText front).events = [] ∨ ∃ place, (ofText front).events = [.replaced .incomplete place]) := by
  refine ⟨fun place h => ?_, fun place h => ?_, fun h => ?_⟩
  · obtain ⟨fault, hf, hc, -⟩ := events_eq_replaced_iff.1 h
    have hb := Json.read_append_of_malformed hf hc back
    have hp := Fault.position_append front back fault
    simp only [ofText, hf, hb, hp]
    rfl
  · obtain ⟨fault, hf, hc, -⟩ := events_eq_replaced_iff.1 h
    obtain ⟨behind, hb⟩ := Json.read_append_of_mistyped hf hc back
    exact ⟨_, _, events_eq_replaced_iff.2 ⟨behind, hb, rfl, rfl⟩⟩
  · obtain ⟨value, hv⟩ := events_eq_nil_iff.1 h
    cases hf : Json.read front with
    | ok value => exact .inl (events_eq_nil_iff.2 ⟨value, hf⟩)
    | error fault =>
      right
      cases hc : fault.category with
      | incomplete => exact ⟨_, events_eq_replaced_iff.2 ⟨fault, hf, hc, rfl⟩⟩
      | malformed =>
        rw [Json.read_append_of_malformed hf hc back] at hv
        cases hv
      | mistyped =>
        obtain ⟨behind, hb⟩ := Json.read_append_of_mistyped hf hc back
        rw [hb] at hv
        cases hv

def unquoted : List UInt8 := Utf8.encode ("\x7b\"" ++ Reader.tag ++ "\":1").toList

/-- A brace that opens nothing, a tagged numeral that is not quoted, and the front of a longer numeral. -/
theorem ofText_append_brace :
    ((ofText [125]).events = [.replaced .malformed ⟨1, 1⟩] ∧ ofText ([125] ++ [49]) = ofText [125]) ∧
    ((ofText unquoted).events = [.replaced .mistyped ⟨1, 33⟩] ∧
      ∃ category place, (ofText (unquoted ++ [125])).events = [.replaced category place]) ∧
    ((ofText ([49] ++ [50])).events = [] ∧
      ((ofText [49]).events = [] ∨ ∃ place, (ofText [49]).events = [.replaced .incomplete place])) := by
  have hbrace : (ofText [125]).events = [.replaced .malformed ⟨1, 1⟩] := by rfl
  have hunquoted : (ofText unquoted).events = [.replaced .mistyped ⟨1, 33⟩] := by decide +kernel
  have htwelve : (ofText ([49] ++ [50])).events = [] := by rfl
  exact ⟨⟨hbrace, (ofText_append [125] [49]).1 _ hbrace⟩,
    ⟨hunquoted, (ofText_append unquoted [125]).2.1 _ hunquoted⟩, htwelve, (ofText_append [49] [50]).2.2 htwelve⟩

end Example

end TypeSketch
