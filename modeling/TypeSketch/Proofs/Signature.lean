import TypeSketch.Codec
import TypeSketch.Proofs.Text.Casing
import TypeSketch.Proofs.Text.Segments

/-! The texts of types. They are made of letters, spaces and underscores, no two types have one text, and in lower case
their words are the names of codecs. A grammar says which texts they are, and the last word of one tells whether its type
is a placeholder. -/
namespace TypeSketch

namespace Signature

/-- A list type inside others is one more of them. -/
theorem nest_list (lists : Nat) (signature : Signature) : nest lists (list signature) = list (nest lists signature) := by
  induction lists generalizing signature with
  | zero => rfl
  | succ lists ih => exact ih (list signature)

/-- A type is its innermost type in as many list types as are counted. -/
theorem nest_depth_innermost (signature : Signature) : nest signature.depth signature.innermost = signature := by
  induction signature with
  | list element ih => rw [depth, innermost, nest, nest_list, ih]
  | bool | string | int | float | emptyList | nullable | record | unreadable => rfl

private theorem all_text (signature : Signature) :
    signature.text.toList.all fun c => c.isAlpha || c == ' ' || c == '_' := by
  induction signature with
  | list element ih =>
    rw [text_list, String.toList_append, List.all_append, ih]
    rfl
  | bool | string | int | float | emptyList | nullable | record | unreadable => rfl

/-- A type's text has letters, spaces and underscores only. -/
theorem forall_mem_text (signature : Signature) : ∀ c ∈ signature.text.toList, c.isAlpha ∨ c = ' ' ∨ c = '_' := by
  simpa [or_assoc] using all_text signature

private def leaves : List Signature := [bool, string, int, float, emptyList, nullable, record, unreadable]

private theorem leaf_or_list (signature : Signature) : signature ∈ leaves ∨ ∃ element, signature = list element := by
  cases signature with
  | list element => exact .inr ⟨element, rfl⟩
  | bool | string | int | float | emptyList | nullable | record | unreadable => exact .inl (by decide)

private theorem leaves_injective : ∀ first ∈ leaves, ∀ second ∈ leaves, first.text = second.text → first = second := by
  decide

private def IsListText (text : String) : Prop :=
  "List ".toList <+: text.toList ∧ (text.toList.drop 5).head?.any Char.isUpper

private theorem not_isListText_leaf : ∀ leaf ∈ leaves, ¬ IsListText leaf.text := by
  unfold IsListText
  decide

private theorem text_head (signature : Signature) : signature.text.toList.head?.any Char.isUpper := by
  cases signature with
  | list element =>
    rw [text_list, String.toList_append]
    rfl
  | bool | string | int | float | emptyList | nullable | record | unreadable => rfl

private theorem isListText_list (element : Signature) : IsListText (list element).text := by
  rw [text_list, IsListText, String.toList_append]
  exact ⟨List.prefix_append _ _, text_head element⟩

/-- No two types have one text. -/
theorem text_injective {first second : Signature} (h : first.text = second.text) : first = second := by
  induction first generalizing second with
  | list element ih =>
    rcases leaf_or_list second with hs | ⟨inner, rfl⟩
    · exact absurd (h ▸ isListText_list element) (not_isListText_leaf second hs)
    · rw [text_list, text_list] at h
      rw [ih ((String.append_right_inj "List ").1 h)]
  | bool | string | int | float | emptyList | nullable | record | unreadable =>
    rcases leaf_or_list second with hs | ⟨inner, rfl⟩
    · exact leaves_injective _ (by decide) second hs h
    · exact absurd (h ▸ isListText_list inner) (not_isListText_leaf _ (by decide))

private theorem ascii_text (signature : Signature) : ∀ c ∈ signature.text.toList, c.toNat < 0x80 := by
  intro c hc
  rcases forall_mem_text signature c hc with h | rfl | rfl
  · exact ascii_of_isAlpha h
  · decide
  · decide

private theorem toList_codec (signature : Signature) : signature.codec.toList = signature.text.toList.map Char.toLower := by
  rw [codec, String.toList_ofList, lowercase_of_ascii (ascii_text signature)]

private theorem toList_codec_list (element : Signature) :
    (list element).codec.toList = "list".toList ++ ' ' :: element.codec.toList := by
  rw [toList_codec, toList_codec, text_list, String.toList_append, List.map_append]
  rfl

def codecWords : Signature → List String
  | bool => ["bool"]
  | string => ["string"]
  | int => ["int"]
  | float => ["float"]
  | list element => "list" :: element.codecWords
  | emptyList => ["list", "a"]
  | nullable => ["maybe", "_unknown"]
  | record => ["something"]
  | unreadable => ["unknown"]

/-- The words of a codec are the names of the codecs. -/
theorem words_codec (signature : Signature) : words signature.codec.toList = signature.codecWords.map String.toList := by
  induction signature with
  | list element ih =>
    have hlist : words "list".toList = ["list".toList] := by decide
    rw [toList_codec_list, words_append_blank (by decide), ih, hlist]
    rfl
  | bool | string | int | float | emptyList | nullable | record | unreadable =>
    rw [toList_codec]
    decide

private theorem codecWords_ne_variable (signature : Signature) : signature.codecWords ≠ ["a"] := by
  cases signature with
  | list element =>
    intro h
    exact absurd (List.cons.inj h).1 (by decide)
  | bool | string | int | float | emptyList | nullable | record | unreadable => decide

private theorem codecWords_leaves_injective :
    ∀ first ∈ leaves, ∀ second ∈ leaves, first.codecWords = second.codecWords → first = second := by
  decide

private theorem variable_of_leaf : ∀ leaf ∈ leaves, leaf.codecWords.head? = some "list" → leaf.codecWords.tail = ["a"] := by
  decide

private theorem codecWords_list_ne (element : Signature) :
    ∀ leaf ∈ leaves, (list element).codecWords ≠ leaf.codecWords := by
  intro leaf hl h
  have hvariable := variable_of_leaf leaf hl (by rw [← h]; rfl)
  rw [← h] at hvariable
  exact codecWords_ne_variable element hvariable

/-- No two types have the same names of codecs. -/
theorem codecWords_injective {first second : Signature} (h : first.codecWords = second.codecWords) : first = second := by
  induction first generalizing second with
  | list element ih =>
    rcases leaf_or_list second with hs | ⟨inner, rfl⟩
    · exact absurd h (codecWords_list_ne element second hs)
    · rw [ih (List.cons.inj h).2]
  | bool | string | int | float | emptyList | nullable | record | unreadable =>
    rcases leaf_or_list second with hs | ⟨inner, rfl⟩
    · exact codecWords_leaves_injective _ (by decide) second hs h
    · exact absurd h.symm (codecWords_list_ne inner _ (by decide))

/-- No two types have one codec. -/
theorem codec_injective {first second : Signature} (h : first.codec = second.codec) : first = second := by
  apply codecWords_injective
  apply (List.map_inj_right fun _ _ => String.toList_inj.1).1
  rw [← words_codec, ← words_codec, h]

/-- The grammar of the texts of types. -/
inductive IsTypeText : String → Prop
  | bool : IsTypeText "Bool"
  | string : IsTypeText "String"
  | int : IsTypeText "Int"
  | float : IsTypeText "Float"
  | emptyList : IsTypeText "List a"
  | nullable : IsTypeText "Maybe _Unknown"
  | record : IsTypeText "Something"
  | unreadable : IsTypeText "Unknown"
  | list {text : String} (element : IsTypeText text) : IsTypeText ("List " ++ text)

/-- The text of every type is in the grammar. -/
theorem isTypeText_text (signature : Signature) : IsTypeText signature.text := by
  induction signature with
  | list element ih =>
    rw [text_list]
    exact .list ih
  | bool => exact .bool
  | string => exact .string
  | int => exact .int
  | float => exact .float
  | emptyList => exact .emptyList
  | nullable => exact .nullable
  | record => exact .record
  | unreadable => exact .unreadable

/-- Every text of the grammar is that of a type. -/
theorem exists_text_eq {text : String} (h : IsTypeText text) : ∃ signature : Signature, signature.text = text := by
  induction h with
  | list _ ih =>
    obtain ⟨element, rfl⟩ := ih
    exact ⟨list element, text_list element⟩
  | bool => exact ⟨bool, rfl⟩
  | string => exact ⟨string, rfl⟩
  | int => exact ⟨int, rfl⟩
  | float => exact ⟨float, rfl⟩
  | emptyList => exact ⟨emptyList, rfl⟩
  | nullable => exact ⟨nullable, rfl⟩
  | record => exact ⟨record, rfl⟩
  | unreadable => exact ⟨unreadable, rfl⟩

def lastWord (text : String) : String :=
  String.ofList ((segments (· = ' ') text.toList).getLast?.getD [])

private theorem lastWord_list (element : Signature) : lastWord (list element).text = lastWord element.text := by
  have hlist : (list element).text.toList = "List".toList ++ ' ' :: element.text.toList := by
    rw [text_list, String.toList_append]
    rfl
  have hlast := List.getLast?_eq_some_getLast (segments_ne_nil (· = ' ') element.text.toList)
  rw [lastWord, lastWord, hlist, segments_append_cons (by decide), List.getLast?_append, hlast, Option.some_or]

private theorem isPlaceholder_list (element : Signature) : (list element).isPlaceholder = element.isPlaceholder := rfl

/-- The last word of a type's text tells whether the example has settled the type. -/
theorem isPlaceholder_eq_false_iff (signature : Signature) :
    signature.isPlaceholder = false ↔ lastWord signature.text ∈ ["Bool", "String", "Int", "Float"] := by
  induction signature with
  | list element ih => rw [isPlaceholder_list, lastWord_list, ih]
  | bool | string | int | float | emptyList | nullable | record | unreadable => decide

/-- The text of a type stands for that type alone, and so does its codec. The texts of types are those of the grammar, and
a type is no placeholder just if its text ends in the name of a type that has no parts. -/
theorem text_unambiguous :
    (∀ first second : Signature, first.text = second.text ↔ first = second) ∧
      (∀ first second : Signature, first.codec = second.codec ↔ first = second) ∧
      (∀ text : String, (∃ signature : Signature, signature.text = text) ↔ IsTypeText text) ∧
      ∀ signature : Signature,
        signature.isPlaceholder = false ↔ lastWord signature.text ∈ ["Bool", "String", "Int", "Float"] := by
  refine ⟨fun first second => ?_, fun first second => ?_, fun text => ?_, isPlaceholder_eq_false_iff⟩
  · exact ⟨text_injective, congrArg text⟩
  · exact ⟨codec_injective, congrArg codec⟩
  · constructor
    · rintro ⟨signature, rfl⟩
      exact isTypeText_text signature
    · exact exists_text_eq

/-- The names of the codecs of a type, qualified: those of the JSON library behind `library`, any other capitalized
behind `front`. -/
def codecNames (front library : String) : Signature → List String
  | bool => [library ++ "bool"]
  | string => [library ++ "string"]
  | int => [library ++ "int"]
  | float => [library ++ "float"]
  | list element => (library ++ "list") :: element.codecNames front library
  | emptyList => [library ++ "list", front ++ "A"]
  | nullable => [library ++ "maybe", front ++ "_unknown"]
  | record => [front ++ "Something"]
  | unreadable => [front ++ "Unknown"]

/-- Every list type around a type is one codec more. -/
theorem codecNames_eq (front library : String) (signature : Signature) :
    signature.codecNames front library =
      List.replicate signature.depth (library ++ "list") ++ signature.innermost.codecNames front library := by
  induction signature with
  | list element ih => rw [codecNames, ih, depth, innermost, List.replicate_succ, List.cons_append]
  | bool | string | int | float | emptyList | nullable | record | unreadable => rfl

end Signature

namespace KnownCodecs

private theorem qualifyWord_known {name : String} (h : standard.isKnown name) (front library : String) :
    standard.qualifyWord front library name.toList = (library ++ name).toList := by
  rw [qualifyWord, String.ofList_toList, if_pos h, String.toList_append]

private theorem qualifyWord_other {name shown : String} (h : ¬ standard.isKnown name)
    (hc : capitalize name.toList = shown.toList) (front library : String) :
    standard.qualifyWord front library name.toList = (front ++ shown).toList := by
  rw [qualifyWord, String.ofList_toList, if_neg h, hc, String.toList_append]

private theorem qualifyWord_codecWords (front library : String) (signature : Signature) :
    signature.codecWords.map (fun name => standard.qualifyWord front library name.toList) =
      (signature.codecNames front library).map String.toList := by
  induction signature with
  | list element ih =>
    rw [Signature.codecWords, Signature.codecNames, List.map_cons, List.map_cons, ih, qualifyWord_known (by decide)]
  | bool | string | int | float =>
    exact congrArg (· :: []) (qualifyWord_known (by decide) front library)
  | emptyList =>
    have hlist := qualifyWord_known (show standard.isKnown "list" by decide) front library
    have hvariable := @qualifyWord_other "a" "A" (by decide) (by decide +kernel) front library
    simp only [Signature.codecWords, Signature.codecNames, List.map_cons, List.map_nil, hlist, hvariable]
  | nullable =>
    have hmaybe := qualifyWord_known (show standard.isKnown "maybe" by decide) front library
    have hvariable := @qualifyWord_other "_unknown" "_unknown" (by decide) (by decide +kernel) front library
    simp only [Signature.codecWords, Signature.codecNames, List.map_cons, List.map_nil, hmaybe, hvariable]
  | record =>
    exact congrArg (· :: []) (@qualifyWord_other "something" "Something" (by decide) (by decide +kernel) front library)
  | unreadable =>
    exact congrArg (· :: []) (@qualifyWord_other "unknown" "Unknown" (by decide) (by decide +kernel) front library)

/-- The codec of a type is qualified name by name. -/
theorem qualify_codec (front library : String) (signature : Signature) :
    standard.qualify front signature.codec library = " ".intercalate (signature.codecNames front library) := by
  rw [← String.toList_inj, qualify, mapWords, String.toList_ofList, Signature.words_codec, List.map_map,
    String.toList_intercalate, ← qualifyWord_codecWords]
  rfl

end KnownCodecs

end TypeSketch
