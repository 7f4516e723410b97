import TypeSketch.Example

/-! Schedules of reads. A source is read up to its end or its first failure, whichever comes first. Into which pieces its
bytes are cut and how often a read is interrupted makes no difference, and of a source that fails nothing is read as JSON. -/
namespace TypeSketch

namespace Delivery
variable {ε : Type}

/-- Behind this delivery the source is read on: it is neither the end of the source nor a failure. -/
def GoesOn : Delivery ε → Prop
  | bytes piece => piece ≠ []
  | interrupted => True
  | failed _ => False

def piece : Delivery ε → List UInt8
  | bytes piece => piece
  | interrupted | failed _ => []

private theorem end_or_failed {delivery : Delivery ε} (h : ¬ delivery.GoesOn) :
    delivery = bytes [] ∨ ∃ error, delivery = failed error := by
  cases delivery with
  | bytes piece => exact .inl (congrArg bytes (Decidable.not_not.1 h))
  | interrupted => exact absurd trivial h
  | failed error => exact .inr ⟨error, rfl⟩

end Delivery

section
variable {ε : Type} {source : List (Delivery ε)} {bytes : List UInt8} {error : ε}

/-- The source comes to its end without a failure, and up to there its pieces are `bytes`, one behind the other. -/
def Ends (source : List (Delivery ε)) (bytes : List UInt8) : Prop :=
  ∃ front back, source = front ++ back ∧ (∀ delivery ∈ front, delivery.GoesOn) ∧
    (back = [] ∨ back.head? = some (.bytes [])) ∧ front.flatMap Delivery.piece = bytes

/-- The source fails, and has not come to its end before. -/
def Fails (source : List (Delivery ε)) (error : ε) : Prop :=
  ∃ front back, source = front ++ .failed error :: back ∧ ∀ delivery ∈ front, delivery.GoesOn

/-- One read: what is read behind it comes behind its piece. -/
theorem readToEnd_cons {delivery : Delivery ε} (h : delivery.GoesOn) (rest : List (Delivery ε)) :
    readToEnd (delivery :: rest) = (delivery.piece ++ ·) <$> readToEnd rest := by
  cases delivery with
  | bytes piece =>
    rw [readToEnd, Delivery.piece]
    exact h
  | interrupted => exact (id_map _).symm
  | failed error => exact h.elim

/-- Many reads: as long as the source is read on, only its pieces one behind the other count. -/
theorem readToEnd_append {front : List (Delivery ε)} (h : ∀ delivery ∈ front, delivery.GoesOn)
    (back : List (Delivery ε)) :
    readToEnd (front ++ back) = (front.flatMap Delivery.piece ++ ·) <$> readToEnd back := by
  induction front with
  | nil => exact (id_map _).symm
  | cons delivery front ih =>
    rw [List.forall_mem_cons] at h
    rw [List.cons_append, readToEnd_cons h.1, ih h.2, Functor.map_map]
    simp only [List.flatMap_cons, List.append_assoc]

/-- Of a source that ends all bytes are read. -/
theorem Ends.readToEnd (h : Ends source bytes) : readToEnd source = .ok bytes := by
  obtain ⟨front, back, rfl, hfront, hback, rfl⟩ := h
  have hend : TypeSketch.readToEnd back = .ok [] := by
    rcases hback with rfl | hback
    · rfl
    · obtain ⟨more, rfl⟩ := List.head?_eq_some_iff.1 hback
      rfl
  rw [readToEnd_append hfront, hend]
  exact congrArg Except.ok (List.append_nil _)

/-- Of a source that fails none are read. -/
theorem Fails.readToEnd (h : Fails source error) : readToEnd source = .error error := by
  obtain ⟨front, back, rfl, hfront⟩ := h
  rw [readToEnd_append hfront]
  rfl

/-- Every source ends or fails. -/
theorem ends_or_fails (source : List (Delivery ε)) : (∃ bytes, Ends source bytes) ∨ ∃ error, Fails source error := by
  induction source with
  | nil => exact .inl ⟨[], [], [], rfl, by simp, .inl rfl, rfl⟩
  | cons delivery source ih =>
    by_cases hd : delivery.GoesOn
    · rcases ih with ⟨bytes, front, back, rfl, hfront, hback, -⟩ | ⟨error, front, back, rfl, hfront⟩
      · exact .inl ⟨_, delivery :: front, back, rfl, List.forall_mem_cons.2 ⟨hd, hfront⟩, hback, rfl⟩
      · exact .inr ⟨error, delivery :: front, back, rfl, List.forall_mem_cons.2 ⟨hd, hfront⟩⟩
    · rcases Delivery.end_or_failed hd with rfl | ⟨error, rfl⟩
      · exact .inl ⟨[], [], _, rfl, by simp, .inr rfl, rfl⟩
      · exact .inr ⟨error, [], source, rfl, by simp⟩

/-- Bytes that are handed out at once. -/
theorem ends_single (bytes : List UInt8) : Ends (ε := ε) [.bytes bytes] bytes := by
  by_cases h : bytes = []
  · subst h
    exact ⟨[], [.bytes []], rfl, by simp, .inr rfl, rfl⟩
  · exact ⟨[.bytes bytes], [], rfl, by simpa [Delivery.GoesOn] using h, .inl rfl, by simp [Delivery.piece]⟩

end

namespace Example
variable {ε : Type} {source : List (Delivery ε)}

/-- The example in a source that ends is that of its bytes. -/
theorem ofSource_of_ends {bytes : List UInt8} (h : Ends source bytes) : ofSource source = .ok (ofText bytes) := by
  rw [ofSource, h.readToEnd]
  rfl

/-- There is no example in a source that fails. -/
theorem ofSource_of_fails {error : ε} (h : Fails source error) : ofSource source = .error error := by
  rw [ofSource, h.readToEnd]
  rfl

private theorem ofSource_cases (source : List (Delivery ε)) :
    (∃ bytes, Ends source bytes ∧ ofSource source = .ok (ofText bytes)) ∨
      ∃ error, Fails source error ∧ ofSource source = .error error := by
  rcases ends_or_fails source with ⟨bytes, he⟩ | ⟨error, hf⟩
  · exact .inl ⟨bytes, he, ofSource_of_ends he⟩
  · exact .inr ⟨error, hf, ofSource_of_fails hf⟩

/-- Reading a source fails exactly if the source does, also if all its bytes have been handed out by then, and then there is
neither a value nor an event. Otherwise the example is that of its pieces put together, with the same event, and the same
as if they had been handed out at once. -/
theorem ofSource_schedule (source : List (Delivery ε)) :
    (∀ error, ofSource source = .error error ↔ Fails source error) ∧
    (∀ logged, ofSource source = .ok logged ↔ ∃ bytes, Ends source bytes ∧ logged = ofText bytes) ∧
    (∀ bytes, Ends source bytes → ofSource source = ofSource (ε := ε) [.bytes bytes]) := by
  refine ⟨fun error => ⟨fun h => ?_, ofSource_of_fails⟩, fun logged => ⟨fun h => ?_, ?_⟩, fun bytes h => ?_⟩
  · rcases ofSource_cases source with ⟨bytes, -, hs⟩ | ⟨error', hf, hs⟩
    · cases h.symm.trans hs
    · cases h.symm.trans hs
      exact hf
  · rcases ofSource_cases source with ⟨bytes, he, hs⟩ | ⟨error, -, hs⟩
    · cases h.symm.trans hs
      exact ⟨bytes, he, rfl⟩
    · cases h.symm.trans hs
  · rintro ⟨bytes, he, rfl⟩
    exact ofSource_of_ends he
  · rw [ofSource_of_ends h, ofSource_of_ends (ends_single bytes)]

/-- Two brackets that come apart, with an interruption between them, and then a failure instead of the end. -/
theorem ofSource_schedule_brackets :
    let pieces : List (Delivery Unit) := [.bytes [91], .interrupted, .bytes [93]]
    (Ends pieces [91, 93] ∧ ofSource pieces = ofSource (ε := Unit) [.bytes [91, 93]]) ∧
      (Fails (pieces ++ [.failed ()]) () ∧ ofSource (pieces ++ [.failed ()]) = .error ()) := by
  intro pieces
  have hgoesOn : ∀ delivery ∈ pieces, delivery.GoesOn := by simp [pieces, Delivery.GoesOn]
  have hends : Ends pieces [91, 93] := ⟨pieces, [], rfl, hgoesOn, .inl rfl, rfl⟩
  have hfails : Fails (pieces ++ [.failed ()]) () := ⟨pieces, [], rfl, hgoesOn⟩
  exact ⟨⟨hends, (ofSource_schedule pieces).2.2 _ hends⟩, hfails, ((ofSource_schedule _).1 ()).2 hfails⟩

end Example

end TypeSketch
