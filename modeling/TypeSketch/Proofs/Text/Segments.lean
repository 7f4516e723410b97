import TypeSketch.Text.Segments

/-! The parts and the words of a text. Cutting takes away the separating characters and nothing else, a blank cuts a text
into two that have their words apart, and words are joined by spaces only. -/
namespace TypeSketch

/-- A separating character cuts a text into two that are cut apart. -/
theorem segments_append_cons {separates : Char → Bool} {c : Char} (hc : separates c) (front back : List Char) :
    segments separates (front ++ c :: back) = segments separates front ++ segments separates back := by
  induction front with
  | nil => simp [segments, hc]
  | cons d front ih =>
    rw [List.cons_append, segments, segments, ih]
    split
    · rfl
    · cases hf : segments separates front with
      | nil => exact absurd hf (segments_ne_nil separates front)
      | cons part parts => rfl

/-- What is in front of a part is in front of the first part. -/
theorem segments_cons {separates : Char → Bool} {c : Char} (hc : ¬ separates c) (text : List Char) :
    ∃ part parts, segments separates text = part :: parts ∧ segments separates (c :: text) = (c :: part) :: parts := by
  cases ht : segments separates text with
  | nil => exact absurd ht (segments_ne_nil separates text)
  | cons part parts => exact ⟨part, parts, rfl, by rw [segments, if_neg hc, ht]⟩

/-- Cutting takes away the separating characters and nothing else. -/
theorem flatten_segments (separates : Char → Bool) (text : List Char) :
    (segments separates text).flatten = text.filter (!separates ·) := by
  induction text with
  | nil => rfl
  | cons c text ih =>
    by_cases hc : separates c
    · simp [segments, hc, ih]
    · obtain ⟨part, parts, ht, hs⟩ := segments_cons hc text
      rw [hs, List.filter_cons_of_pos (by simpa using hc), ← ih, ht]
      rfl

/-- The characters of a part are those of the text that do not separate. -/
theorem mem_segments {separates : Char → Bool} {text part : List Char} (hp : part ∈ segments separates text) {c : Char}
    (hc : c ∈ part) : c ∈ text ∧ ¬ separates c := by
  have hm := List.mem_flatten.2 ⟨part, hp, hc⟩
  rw [flatten_segments, List.mem_filter] at hm
  exact ⟨hm.1, by simpa using hm.2⟩

/-- There is one part more than there are separating characters. -/
theorem length_segments (separates : Char → Bool) (text : List Char) :
    (segments separates text).length = text.countP separates + 1 := by
  induction text with
  | nil => rfl
  | cons c text ih =>
    by_cases hc : separates c
    · simp [segments, hc, ih]
    · obtain ⟨part, parts, ht, hs⟩ := segments_cons hc text
      rw [hs, List.countP_cons_of_neg hc, ← ih, ht]
      rfl

/-- A text without separating characters is one part. -/
theorem segments_eq_singleton {separates : Char → Bool} {text : List Char} (h : ∀ c ∈ text, ¬ separates c) :
    segments separates text = [text] := by
  induction text with
  | nil => rfl
  | cons c text ih =>
    rw [List.forall_mem_cons] at h
    rw [segments, if_neg h.1, ih h.2]

/-- Parts that were put together with a separating character before each but the first are cut apart again. -/
theorem segments_append_flatMap {separates : Char → Bool} {c : Char} (hc : separates c) {first : List Char}
    (hf : ∀ d ∈ first, ¬ separates d) {parts : List (List Char)} (hp : ∀ part ∈ parts, ∀ d ∈ part, ¬ separates d) :
    segments separates (first ++ parts.flatMap (c :: ·)) = first :: parts := by
  induction parts generalizing first with
  | nil => rw [List.flatMap_nil, List.append_nil, segments_eq_singleton hf]
  | cons part parts ih =>
    rw [List.forall_mem_cons] at hp
    rw [List.flatMap_cons, List.cons_append, segments_append_cons hc, segments_eq_singleton hf, ih hp.1 hp.2]
    rfl

/-- The other way round, a text is put together from its parts. -/
theorem eq_append_flatMap_of_segments {c : Char} {text first : List Char} {rest : List (List Char)}
    (h : segments (· = c) text = first :: rest) : text = first ++ rest.flatMap (c :: ·) := by
  induction text generalizing first rest with
  | nil =>
    cases h
    rfl
  | cons d text ih =>
    by_cases hd : d = c
    · rw [segments, if_pos (by simpa using hd)] at h
      obtain ⟨rfl, rfl⟩ := List.cons.inj h
      obtain ⟨part, parts, hs⟩ := List.exists_cons_of_ne_nil (segments_ne_nil (· = c) text)
      rw [hs, List.nil_append, List.flatMap_cons, List.cons_append, ← ih hs, hd]
    · obtain ⟨part, parts, hs, hcons⟩ := @segments_cons (· = c) d (by simpa using hd) text
      rw [hcons] at h
      obtain ⟨rfl, rfl⟩ := List.cons.inj h
      rw [List.cons_append, ← ih hs]

/-- A blank cuts a text into two that have their words apart. -/
theorem words_append_blank {c : Char} (hc : isBlank c) (front back : List Char) :
    words (front ++ c :: back) = words front ++ words back := by
  rw [words, segments_append_cons hc, List.filter_append]
  rfl

/-- A word has no blank and is not empty. -/
theorem forall_mem_words {text word : List Char} (h : word ∈ words text) : word ≠ [] ∧ ∀ c ∈ word, ¬ isBlank c := by
  obtain ⟨hw, hn⟩ := List.mem_filter.1 h
  exact ⟨of_decide_eq_true hn, fun c hc => (mem_segments hw hc).2⟩

/-- There is a space in front of each word but the first. -/
theorem joinWords_cons (part : List Char) (parts : List (List Char)) :
    joinWords (part :: parts) = part ++ parts.flatMap (' ' :: ·) := by
  induction parts generalizing part with
  | nil => rw [joinWords, List.intercalate_singleton, List.flatMap_nil, List.append_nil]
  | cons second parts ih =>
    rw [joinWords, List.intercalate_cons_cons, ← joinWords, ih second]
    simp

/-- Joining puts in nothing but spaces. -/
theorem mem_joinWords {c : Char} {parts : List (List Char)} (h : c ∈ joinWords parts) :
    c = ' ' ∨ ∃ part ∈ parts, c ∈ part := by
  cases parts with
  | nil => cases h
  | cons part parts =>
    rw [joinWords_cons, List.mem_append, List.mem_flatMap] at h
    rcases h with hp | ⟨other, ho, hc⟩
    · exact .inr ⟨part, List.mem_cons_self, hp⟩
    · exact (List.mem_cons.1 hc).imp_right fun hc => ⟨other, List.mem_cons_of_mem part ho, hc⟩

/-- Words that are joined apart have one more space between them. -/
theorem joinWords_append {front back : List (List Char)} (hf : front ≠ []) (hb : back ≠ []) :
    joinWords (front ++ back) = joinWords front ++ ' ' :: joinWords back := by
  obtain ⟨part, front, rfl⟩ := List.exists_cons_of_ne_nil hf
  obtain ⟨other, back, rfl⟩ := List.exists_cons_of_ne_nil hb
  rw [List.cons_append, joinWords_cons, joinWords_cons, joinWords_cons, List.flatMap_append, List.flatMap_cons,
    List.cons_append, List.append_assoc]

/-- Only no words at all are joined to nothing. -/
theorem joinWords_eq_nil_iff {parts : List (List Char)} (h : ∀ part ∈ parts, part ≠ []) :
    joinWords parts = [] ↔ parts = [] := by
  cases parts with
  | nil => exact iff_of_true rfl rfl
  | cons part parts =>
    rw [joinWords_cons, List.append_eq_nil_iff]
    exact iff_of_false (fun hj => (List.forall_mem_cons.1 h).1 hj.1) (List.cons_ne_nil part parts)

/-- Words without blanks are cut apart again where they were joined. -/
theorem segments_joinWords {parts : List (List Char)} (hn : parts ≠ []) (h : ∀ part ∈ parts, ∀ c ∈ part, ¬ isBlank c) :
    segments isBlank (joinWords parts) = parts := by
  obtain ⟨part, parts, rfl⟩ := List.exists_cons_of_ne_nil hn
  obtain ⟨hpart, hparts⟩ := List.forall_mem_cons.1 h
  rw [joinWords_cons, segments_append_flatMap (by decide) hpart hparts]

/-- Words that were joined are found again. -/
theorem words_joinWords {parts : List (List Char)} (hn : ∀ part ∈ parts, part ≠ [])
    (h : ∀ part ∈ parts, ∀ c ∈ part, ¬ isBlank c) : words (joinWords parts) = parts := by
  by_cases hp : parts = []
  · rw [hp]
    rfl
  · rw [words, segments_joinWords hp h, List.filter_eq_self]
    exact fun part hm => decide_eq_true (hn part hm)

/-- No space at either end, and nowhere one behind another. -/
structure SingleSpaced (text : List Char) : Prop where
  front : text.head? ≠ some ' '
  back : text.getLast? ≠ some ' '
  between : ¬ [' ', ' '] <:+: text

private theorem ne_nil_of_segments {text : List Char} (h : ∀ part ∈ segments isBlank text, part ≠ []) : text ≠ [] := by
  rintro rfl
  exact h [] (List.mem_singleton.2 rfl) rfl

private theorem forall_mem_segments_of_space {front back : List Char}
    (h : ∀ part ∈ segments isBlank (front ++ ' ' :: back), part ≠ []) :
    (∀ part ∈ segments isBlank front, part ≠ []) ∧ ∀ part ∈ segments isBlank back, part ≠ [] := by
  rw [segments_append_cons (by decide)] at h
  exact List.forall_mem_append.1 h

/-- If no part between blanks is empty, spaces are single. -/
theorem singleSpaced_of_segments {text : List Char} (h : ∀ part ∈ segments isBlank text, part ≠ []) : SingleSpaced text where
  front hf := by
    obtain ⟨rest, rfl⟩ := List.head?_eq_some_iff.1 hf
    exact ne_nil_of_segments (@forall_mem_segments_of_space [] rest h).1 rfl
  back hb := by
    obtain ⟨rest, rfl⟩ := List.getLast?_eq_some_iff.1 hb
    exact ne_nil_of_segments (forall_mem_segments_of_space h).2 rfl
  between := by
    rintro ⟨front, back, rfl⟩
    rw [List.append_assoc] at h
    have hback := (forall_mem_segments_of_space h).2
    exact ne_nil_of_segments (@forall_mem_segments_of_space [] back hback).1 rfl

/-- Joined words have single spaces. -/
theorem singleSpaced_joinWords {parts : List (List Char)} (hn : ∀ part ∈ parts, part ≠ [])
    (h : ∀ part ∈ parts, ∀ c ∈ part, ¬ isBlank c) : SingleSpaced (joinWords parts) := by
  by_cases hp : parts = []
  · rw [hp]
    exact ⟨nofun, nofun, by decide⟩
  · apply singleSpaced_of_segments
    rwa [segments_joinWords hp h]

end TypeSketch
