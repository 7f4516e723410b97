import TypeSketch.Codec
import TypeSketch.Proofs.Text.Casing
import TypeSketch.Proofs.Text.Segments

/-! Codecs word by word. No word is lost, since a word in the other case is not empty, and no word falls into two, since no
character gets a blank in the other case. So a codec of two texts is the codecs of both, and a codec has the words of its
text, each changed by itself. -/
namespace TypeSketch

def Unbroken (text : String) : Prop := ∀ c ∈ text.toList, ¬ isBlank c

instance (text : String) : Decidable (Unbroken text) := List.decidableBAll _ text.toList

/-- Two texts with a space between them, or the one that is not empty. -/
def spaced (front back : String) : String :=
  if front = "" then back else if back = "" then front else front ++ " " ++ back

namespace KnownCodecs

section
variable {f : List Char → List Char}

private theorem map_words_ne_nil (hn : ∀ word ≠ [], f word ≠ []) (text : String) :
    ∀ part ∈ (words text.toList).map f, part ≠ [] :=
  List.forall_mem_map.2 fun word hw => hn word (forall_mem_words hw).1

private theorem mapWords_eq_empty_iff (hn : ∀ word ≠ [], f word ≠ []) (text : String) :
    mapWords f text = "" ↔ (words text.toList).map f = [] := by
  rw [mapWords, ← String.toList_inj, String.toList_ofList]
  exact joinWords_eq_nil_iff (map_words_ne_nil hn text)

/-- A blank parts a text into two that are changed apart. -/
theorem mapWords_append_blank (hn : ∀ word ≠ [], f word ≠ []) {blank : Char} (hb : isBlank blank) (front back : String) :
    mapWords f (front ++ String.singleton blank ++ back) = spaced (mapWords f front) (mapWords f back) := by
  have hwords : words (front ++ String.singleton blank ++ back).toList = words front.toList ++ words back.toList := by
    rw [← words_append_blank hb]
    simp
  have hfront := mapWords_eq_empty_iff hn front
  have hback := mapWords_eq_empty_iff hn back
  unfold spaced
  split
  · rename_i hf
    rw [mapWords, hwords, List.map_append, hfront.1 hf, List.nil_append, mapWords]
  split
  · rename_i he
    rw [mapWords, hwords, List.map_append, hback.1 he, List.append_nil, mapWords]
  · rename_i hf he
    rw [mapWords, hwords, List.map_append, joinWords_append (mt hfront.2 hf) (mt hback.2 he), ← String.toList_inj]
    simp [mapWords]

section
variable (hn : ∀ word ≠ [], f word ≠ []) (hb : ∀ word, (∀ c ∈ word, ¬ isBlank c) → ∀ c ∈ f word, ¬ isBlank c)
  (text : String)
include hb

private theorem not_isBlank_map_words : ∀ part ∈ (words text.toList).map f, ∀ c ∈ part, ¬ isBlank c :=
  List.forall_mem_map.2 fun word hw => hb word (forall_mem_words hw).2

include hn

/-- The words that come of a text are found again in what they are joined to. -/
theorem words_mapWords : words (mapWords f text).toList = (words text.toList).map f := by
  rw [mapWords, String.toList_ofList, words_joinWords (map_words_ne_nil hn text) (not_isBlank_map_words hb text)]

/-- What is changed word by word has single spaces. -/
theorem singleSpaced_mapWords : SingleSpaced (mapWords f text).toList := by
  rw [mapWords, String.toList_ofList]
  exact singleSpaced_joinWords (map_words_ne_nil hn text) (not_isBlank_map_words hb text)

end

end

section
variable (known : KnownCodecs) {front library back : String}

private theorem qualifyWord_ne_nil (front library : String) (word : List Char) (h : word ≠ []) :
    known.qualifyWord front library word ≠ [] := by
  unfold qualifyWord
  split
  · exact List.append_ne_nil_of_right_ne_nil _ h
  · exact List.append_ne_nil_of_right_ne_nil _ (capitalize_ne_nil h)

private theorem extendWord_ne_nil (back : String) (word : List Char) (h : word ≠ []) : known.extendWord back word ≠ [] := by
  unfold extendWord
  split
  · exact h
  · exact List.append_ne_nil_of_left_ne_nil h _

private theorem not_isBlank_qualifyWord (hf : Unbroken front) (hl : Unbroken library) (word : List Char)
    (h : ∀ c ∈ word, ¬ isBlank c) : ∀ c ∈ known.qualifyWord front library word, ¬ isBlank c := by
  unfold qualifyWord
  split
  · exact List.forall_mem_append.2 ⟨hl, h⟩
  · refine List.forall_mem_append.2 ⟨hf, fun c hc hblank => ?_⟩
    exact h c (((caseless_of_isBlank hblank).mem_capitalize_iff word).1 hc) hblank

private theorem not_isBlank_extendWord (hb : Unbroken back) (word : List Char) (h : ∀ c ∈ word, ¬ isBlank c) :
    ∀ c ∈ known.extendWord back word, ¬ isBlank c := by
  unfold extendWord
  split
  · exact h
  · exact List.forall_mem_append.2 ⟨h, hb⟩

end

/-- A codec is qualified and extended word by word. Where a blank parts it, the two sides are changed apart and put together
with a space. If nothing that is added has a blank, the words of the result are those of the codec, each changed by itself,
with single spaces between them. -/
theorem qualify_extend_wordwise (known : KnownCodecs) (front library back : String) :
    (∀ (first second : String) (blank : Char), isBlank blank →
      known.qualify front (first ++ String.singleton blank ++ second) library =
        spaced (known.qualify front first library) (known.qualify front second library) ∧
      known.extend back (first ++ String.singleton blank ++ second) =
        spaced (known.extend back first) (known.extend back second)) ∧
    (Unbroken front → Unbroken library → ∀ codec : String,
      words (known.qualify front codec library).toList = ((words codec.toList).map fun word =>
        if known.isKnown (String.ofList word) then library.toList ++ word else front.toList ++ capitalize word) ∧
      SingleSpaced (known.qualify front codec library).toList) ∧
    (Unbroken back → ∀ codec : String,
      words (known.extend back codec).toList = ((words codec.toList).map fun word =>
        if known.isKnown (String.ofList word) then word else word ++ back.toList) ∧
      SingleSpaced (known.extend back codec).toList) := by
  have hqualify := known.qualifyWord_ne_nil front library
  have hextend := known.extendWord_ne_nil back
  refine ⟨fun first second blank hb => ⟨?_, ?_⟩, fun hf hl codec => ?_, fun hb codec => ?_⟩
  · exact mapWords_append_blank hqualify hb first second
  · exact mapWords_append_blank hextend hb first second
  · have hblanks := known.not_isBlank_qualifyWord hf hl
    exact ⟨words_mapWords hqualify hblanks codec, singleSpaced_mapWords hqualify hblanks codec⟩
  · have hblanks := known.not_isBlank_extendWord hb
    exact ⟨words_mapWords hextend hblanks codec, singleSpaced_mapWords hextend hblanks codec⟩

/-- With an ideographic space, blanks at both ends, and a word that begins with a letter of two capitals. -/
theorem qualify_extend_wordwise_wide :
    let known : KnownCodecs := ⟨["list"]⟩
    (isBlank '\u3000' ∧ Unbroken "de" ∧ Unbroken "Json." ∧ Unbroken "Codec") ∧
      known.qualify "de" "\tlist\u3000\u00DFx " "Json." = spaced "Json.list" "deSSx" ∧
      words (known.qualify "de" "\tlist\u3000\u00DFx " "Json.").toList = ["Json.list".toList, "deSSx".toList] ∧
      words (known.extend "Codec" "\tlist\u3000\u00DFx ").toList = ["list".toList, "\u00DFxCodec".toList] := by
  intro known
  have hblank : isBlank '\u3000' := by decide
  have hfront : Unbroken "de" := by decide
  have hlibrary : Unbroken "Json." := by decide
  have hback : Unbroken "Codec" := by decide
  obtain ⟨happend, hqualify, hextend⟩ := qualify_extend_wordwise known "de" "Json." "Codec"
  refine ⟨⟨hblank, hfront, hlibrary, hback⟩, (happend "\tlist" "\u00DFx " _ hblank).1.trans ?_, ?_, ?_⟩
  · decide +kernel
  · exact (hqualify hfront hlibrary _).1.trans (by decide +kernel)
  · exact (hextend hback _).1.trans (by decide +kernel)

end KnownCodecs

end TypeSketch
