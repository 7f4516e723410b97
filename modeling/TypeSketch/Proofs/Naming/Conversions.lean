import Mathlib.Data.List.Basic
import Mathlib.Dynamics.FixedPoints.Basic
import TypeSketch.Proofs.Naming

/-! Names that are converted again and again. Conversion to `camelCase` gives underscores up until those that are left stand
at the end, so it comes to rest. Conversion to `snake_case` leaves no capital to mark and no character that has another lower
case, so it is at rest after one step. Conversion in either direction moves underscores and changes case only, so however often
a name of ASCII is converted, it keeps its letters. -/
namespace TypeSketch.Naming

def underscores (name : String) : Nat := name.toList.count '_'

/-- All underscores of the name are at its end. -/
def Trailing (name : String) : Prop := ∃ word n, '_' ∉ word ∧ name.toList = word ++ List.replicate n '_'

private theorem notMem_of_segments {name : List Char} {first : List Char} {rest : List (List Char)}
    (hs : segments (· = '_') name = first :: rest) : '_' ∉ first ∧ ∀ part ∈ rest, '_' ∉ part := by
  have hparts : ∀ part ∈ first :: rest, '_' ∉ part := by
    intro part hp hc
    rw [← hs] at hp
    exact (mem_segments hp hc).2 rfl
  exact List.forall_mem_cons.1 hparts

private theorem count_continued {part : List Char} (h : '_' ∉ part) :
    (continued part).count '_' = if part = [] then 1 else 0 := by
  rw [continued]
  split
  · rfl
  · rw [caseless_underscore.count_capitalize, List.count_eq_zero.2 h]

private theorem count_flatMap_continued {parts : List (List Char)} (h : ∀ part ∈ parts, '_' ∉ part) :
    (parts.flatMap continued).count '_' = parts.count [] := by
  induction parts with
  | nil => rfl
  | cons part parts ih =>
    obtain ⟨hpart, hparts⟩ := List.forall_mem_cons.1 h
    rw [List.flatMap_cons, List.count_append, count_continued hpart, ih hparts, List.count_cons, Nat.add_comm]
    simp only [beq_iff_eq]

private theorem flatMap_replicate_nil (n : Nat) :
    (List.replicate n []).flatMap ('_' :: ·) = List.replicate n '_' := by
  rw [List.flatMap_replicate, List.flatten_replicate_singleton]

private theorem trailing_iff {name : String} {first : List Char} {rest : List (List Char)}
    (hs : segments (· = '_') name.toList = first :: rest) :
    Trailing name ↔ rest.count [] = rest.length := by
  rw [List.count_eq_length]
  constructor
  · rintro ⟨word, n, hw, hname⟩
    have hword : ∀ c ∈ word, ¬ decide (c = '_') := by
      intro c hc he
      exact hw (of_decide_eq_true he ▸ hc)
    have hempty : ∀ part ∈ List.replicate n ([] : List Char), ∀ c ∈ part, ¬ decide (c = '_') := by
      intro part hp
      rw [List.eq_of_mem_replicate hp]
      exact List.forall_mem_nil _
    rw [hname, ← flatMap_replicate_nil, segments_append_flatMap (by decide) hword hempty] at hs
    obtain ⟨-, rfl⟩ := List.cons.inj hs
    exact fun part hp => (List.eq_of_mem_replicate hp).symm
  · intro h
    have hrest : rest = List.replicate rest.length [] :=
      List.eq_replicate_iff.2 ⟨rfl, fun part hp => (h part hp).symm⟩
    refine ⟨first, rest.length, (notMem_of_segments hs).1, ?_⟩
    rw [← flatMap_replicate_nil, ← hrest, ← eq_append_flatMap_of_segments hs]

private theorem underscores_toCamelCase (name : String) :
    underscores (toCamelCase name) = (segments (· = '_') name.toList).tail.count [] := by
  obtain ⟨first, rest, hs, -, hcamel⟩ := exists_parts name.toList
  obtain ⟨hf, hr⟩ := notMem_of_segments hs
  rw [underscores, toCamelCase, String.toList_ofList, hcamel, hs, List.count_append, List.count_eq_zero.2 hf, Nat.zero_add,
    count_flatMap_continued hr, List.tail_cons]

private theorem underscores_toCamelCase_lt_iff (name : String) :
    underscores (toCamelCase name) < underscores name ↔ ¬ Trailing name := by
  obtain ⟨first, rest, hs, -, -⟩ := exists_parts name.toList
  have hlength : (segments (· = '_') name.toList).length = underscores name + 1 := length_segments (· = '_') name.toList
  have hle : rest.count [] ≤ rest.length := List.count_le_length
  rw [hs, List.length_cons, Nat.add_right_cancel_iff] at hlength
  rw [underscores_toCamelCase, hs, List.tail_cons, trailing_iff hs, ← hlength]
  omega

private theorem toCamelCase_eq_self_iff (name : String) : toCamelCase name = name ↔ Trailing name := by
  constructor
  · intro h
    have hlt := underscores_toCamelCase_lt_iff name
    rw [h] at hlt
    exact Classical.not_not.1 fun hn => Nat.lt_irrefl _ (hlt.2 hn)
  · intro h
    obtain ⟨first, rest, hs, hname, hcamel⟩ := exists_parts name.toList
    rw [trailing_iff hs, List.count_eq_length] at h
    have hrest : rest.flatMap continued = rest.flatMap ('_' :: ·) := by
      refine List.flatMap_congr fun part hp => ?_
      rw [← h part hp]
      rfl
    rw [toCamelCase, hcamel, hrest, ← hname, String.ofList_toList]

/-- Conversion to `camelCase`, again and again. A name keeps an underscore for each empty part behind its first one. It is
left as it is just if all its underscores are at its end, and otherwise it has fewer afterwards; so conversion comes to rest
after at most as many steps as the name has underscores. -/
theorem toCamelCase_converges (name : String) :
    underscores (toCamelCase name) = (segments (· = '_') name.toList).tail.count [] ∧
      (toCamelCase name = name ↔ Trailing name) ∧
      (underscores (toCamelCase name) < underscores name ↔ ¬ Trailing name) ∧
      ∃ n ≤ underscores name, Function.IsFixedPt toCamelCase (toCamelCase^[n] name) := by
  refine ⟨underscores_toCamelCase name, toCamelCase_eq_self_iff name, underscores_toCamelCase_lt_iff name, ?_⟩
  generalize hcount : underscores name = count
  induction count using Nat.strongRecOn generalizing name with
  | ind count ih =>
    by_cases ht : Trailing name
    · exact ⟨0, Nat.zero_le count, (toCamelCase_eq_self_iff name).2 ht⟩
    · have hlt := (underscores_toCamelCase_lt_iff name).2 ht
      rw [hcount] at hlt
      obtain ⟨n, hn, hfixed⟩ := ih _ hlt (toCamelCase name) rfl
      exact ⟨n + 1, Nat.lt_of_le_of_lt hn hlt, hfixed⟩

example : toCamelCase "a__b_" = "a_B_" ∧ toCamelCase "a_B_" = "aB_" ∧ Trailing "aB_" :=
  ⟨by decide +kernel, by decide +kernel, ['a', 'B'], 1, by decide, rfl⟩

private theorem marked_eq_self {text : List Char} (h : ∀ c ∈ text, ¬ c.isUpper) : marked text = text := by
  cases text with
  | nil => rfl
  | cons c rest =>
    have hrest := markedBehind_append c (List.forall_mem_cons.1 h).2 []
    rw [List.append_nil, markedBehind, List.append_nil] at hrest
    rw [marked, hrest]

/-- No capital is its own lower case. -/
theorem not_isUpper_of_isLowercase {c : Char} (h : IsLowercase c) : ¬ c.isUpper := by
  intro hu
  rw [IsLowercase, lower_of_ascii (ascii_of_isUpper hu), List.singleton_inj] at h
  rw [← h] at hu
  exact not_isUpper_toLower c hu

private theorem snakeChars_eq_self {name : List Char} (h : ∀ c ∈ name, IsLowercase c) : snakeChars name = name := by
  rw [snakeChars, markCapitals_markWords, marked_eq_self fun c hc => not_isUpper_of_isLowercase (h c hc),
    lowercase_eq_self h]

private theorem isLowercase_of_mem_toSnakeCase {name : String} {c : Char} (h : c ∈ (toSnakeCase name).toList) :
    IsLowercase c := by
  rw [toSnakeCase, String.toList_ofList, snakeChars] at h
  exact isLowercase_of_mem_lowercase h

private theorem toSnakeCase_eq_self_iff (name : String) : toSnakeCase name = name ↔ ∀ c ∈ name.toList, IsLowercase c := by
  constructor
  · intro h c hc
    rw [← h] at hc
    exact isLowercase_of_mem_toSnakeCase hc
  · intro h
    rw [toSnakeCase, snakeChars_eq_self h, String.ofList_toList]

/-- Conversion to `snake_case` comes to rest at once: a name is left as it is just if each of its characters is its own
lower case, as no capital is, and all that conversion gives are such names. -/
theorem toSnakeCase_idempotent (name : String) :
    toSnakeCase (toSnakeCase name) = toSnakeCase name ∧
      (∀ c ∈ (toSnakeCase name).toList, IsLowercase c ∧ ¬ c.isUpper) ∧
      (toSnakeCase name = name ↔ ∀ c ∈ name.toList, IsLowercase c) := by
  refine ⟨?_, fun c hc => ?_, toSnakeCase_eq_self_iff name⟩
  · exact (toSnakeCase_eq_self_iff _).2 fun c hc => isLowercase_of_mem_toSnakeCase hc
  · have hlower := isLowercase_of_mem_toSnakeCase hc
    exact ⟨hlower, not_isUpper_of_isLowercase hlower⟩

/-- The first sigma becomes a final one because of the underscore behind it. One character is put into two, another into one
of ASCII. -/
example : toSnakeCase "aΣBcΣd\u0130\u212A" = "aς_bcσdi\u0307k" ∧ toSnakeCase "aς_bcσdi\u0307k" = "aς_bcσdi\u0307k" :=
  ⟨by decide +kernel, by decide +kernel⟩

/-- The two conversions. -/
inductive Conversion where
  | camel
  | snake
  deriving DecidableEq, Repr

def Conversion.apply : Conversion → String → String
  | camel => toCamelCase
  | snake => toSnakeCase

/-- The names that conversions lead to, one after the other, with the name in front that they begin at. -/
def conversions (name : String) (steps : List Conversion) : List String :=
  steps.scanl (fun name step => step.apply name) name

def IsAscii (text : List Char) : Prop := ∀ c ∈ text, c.toNat < 0x80

/-- A name without its underscores, in lower case. -/
def letters (name : String) : List Char := lowercase (name.toList.filter (· ≠ '_'))

private def smallLetters (text : List Char) : List Char := (text.filter (· ≠ '_')).map Char.toLower

private theorem letters_eq {name : String} (h : IsAscii name.toList) : letters name = smallLetters name.toList :=
  lowercase_of_ascii fun c hc => h c (List.mem_filter.1 hc).1

private theorem smallLetters_append (front back : List Char) :
    smallLetters (front ++ back) = smallLetters front ++ smallLetters back := by
  rw [smallLetters, List.filter_append, List.map_append, smallLetters, smallLetters]

private theorem smallLetters_flatMap (parts : List (List Char)) (f : List Char → List Char) :
    smallLetters (parts.flatMap f) = parts.flatMap fun part => smallLetters (f part) := by
  rw [smallLetters, List.filter_flatMap, List.map_flatMap]
  rfl

private theorem ascii_toLower_iff {c : Char} : c.toLower.toNat < 0x80 ↔ c.toNat < 0x80 := by
  by_cases hc : c.isUpper
  · exact iff_of_true (ascii_of_isLower (toLower_of_isUpper hc).1) (ascii_of_isUpper hc)
  · rw [toLower_eq_self hc]

private theorem toLower_eq_underscore_iff {c : Char} : c.toLower = '_' ↔ c = '_' := by
  by_cases hc : c.isUpper
  · have hl := (toLower_of_isUpper hc).1
    constructor
    · intro he
      rw [he] at hl
      cases hl
    · rintro rfl
      cases hc
  · rw [toLower_eq_self hc]

private theorem map_toLower_map_toLower (text : List Char) :
    (text.map Char.toLower).map Char.toLower = text.map Char.toLower := by
  rw [List.map_map]
  exact List.map_congr_left fun c _ => toLower_eq_self (not_isUpper_toLower c)

private theorem smallLetters_map_toLower (text : List Char) : smallLetters (text.map Char.toLower) = smallLetters text := by
  have hkeeps : (fun c => decide (c ≠ '_')) ∘ Char.toLower = fun c => decide (c ≠ '_') := by
    funext c
    simp only [Function.comp_apply, ne_eq, toLower_eq_underscore_iff]
  rw [smallLetters, smallLetters, List.filter_map, hkeeps, map_toLower_map_toLower]

private theorem isAscii_of_smallLetters {text name : List Char} (h : smallLetters text = smallLetters name)
    (hn : IsAscii name) : IsAscii text := by
  intro c hc
  by_cases hu : c = '_'
  · rw [hu]
    decide
  · have hm : c.toLower ∈ smallLetters text := List.mem_map_of_mem (List.mem_filter.2 ⟨hc, by simpa using hu⟩)
    rw [h] at hm
    obtain ⟨d, hd, he⟩ := List.mem_map.1 hm
    have hlower := ascii_toLower_iff.2 (hn d (List.mem_filter.1 hd).1)
    rw [he] at hlower
    exact ascii_toLower_iff.1 hlower

private theorem smallLetters_continued {part : List Char} (h : IsAscii part) :
    smallLetters (continued part) = smallLetters part := by
  cases part with
  | nil => rfl
  | cons c rest =>
    have hlower : (c.toUpper :: rest.map Char.toLower).map Char.toLower = (c :: rest).map Char.toLower := by
      rw [List.map_cons, toLower_toUpper, map_toLower_map_toLower, List.map_cons]
    rw [continued, if_neg (List.cons_ne_nil c rest), capitalize_of_ascii h, ← smallLetters_map_toLower, hlower,
      smallLetters_map_toLower]

private theorem smallLetters_camelChars {name : List Char} (h : IsAscii name) :
    smallLetters (camelChars name) = smallLetters name := by
  obtain ⟨first, rest, -, hname, hcamel⟩ := exists_parts name
  have hrest : ∀ part ∈ rest, IsAscii part := by
    intro part hp c hc
    refine h c ?_
    rw [hname]
    exact List.mem_append_right first (List.mem_flatMap.2 ⟨part, hp, List.mem_cons_of_mem '_' hc⟩)
  have hparts : (rest.flatMap fun part => smallLetters (continued part)) =
      rest.flatMap fun part => smallLetters ('_' :: part) :=
    List.flatMap_congr fun part hp => smallLetters_continued (hrest part hp)
  rw [hcamel, smallLetters_append, smallLetters_flatMap, hparts, ← smallLetters_flatMap, ← smallLetters_append, ← hname]

private theorem smallLetters_markedBehind (before : Char) (text : List Char) :
    smallLetters (markedBehind before text) = smallLetters text := by
  induction text generalizing before with
  | nil => rfl
  | cons c text ih =>
    have hmark : smallLetters (if Opens before c text.head? then ['_', c] else [c]) = smallLetters [c] := by
      split <;> rfl
    rw [markedBehind, smallLetters_append, hmark, ih c, ← smallLetters_append, List.singleton_append]

private theorem smallLetters_snakeChars {name : List Char} (h : IsAscii name) :
    smallLetters (snakeChars name) = smallLetters name := by
  have hmarked : smallLetters (marked name) = smallLetters name := by
    cases name with
    | nil => rfl
    | cons c rest =>
      rw [marked, ← List.singleton_append, smallLetters_append, smallLetters_markedBehind, ← smallLetters_append,
        List.singleton_append]
  rw [snakeChars, markCapitals_markWords, lowercase_of_ascii (isAscii_of_smallLetters hmarked h),
    smallLetters_map_toLower, hmarked]

/-- A conversion leaves a name of ASCII one with the same letters. -/
theorem Conversion.letters_apply (step : Conversion) {name : String} (h : IsAscii name.toList) :
    IsAscii (step.apply name).toList ∧ letters (step.apply name) = letters name := by
  have hsmall : smallLetters (step.apply name).toList = smallLetters name.toList := by
    cases step with
    | camel => rw [apply, toCamelCase, String.toList_ofList, smallLetters_camelChars h]
    | snake => rw [apply, toSnakeCase, String.toList_ofList, smallLetters_snakeChars h]
  have hascii := isAscii_of_smallLetters hsmall h
  exact ⟨hascii, by rw [letters_eq hascii, letters_eq h, hsmall]⟩

/-- However often and in whatever order a name of ASCII is converted, each name on the way is of ASCII and has the letters
that the first one has. -/
theorem letters_conversions {name : String} (h : IsAscii name.toList) (steps : List Conversion) :
    ∀ state ∈ conversions name steps, IsAscii state.toList ∧ letters state = letters name := by
  induction steps generalizing name with
  | nil => exact List.forall_mem_singleton.2 ⟨h, rfl⟩
  | cons step steps ih =>
    obtain ⟨hascii, hletters⟩ := step.letters_apply h
    rw [conversions, List.scanl_cons, List.forall_mem_cons]
    refine ⟨⟨h, rfl⟩, fun state hs => ?_⟩
    rw [← hletters]
    exact ih hascii state hs

/-- The underscore that the first conversion takes away is put back by the second. -/
theorem letters_conversions_back :
    IsAscii "ab__cD".toList ∧ conversions "ab__cD" [.camel, .snake, .camel] = ["ab__cD", "ab_Cd", "ab__cd", "ab_Cd"] ∧
      letters "ab_Cd" = letters "ab__cD" := by
  have hascii : IsAscii "ab__cD".toList := by
    simp [IsAscii]
  have hruns : conversions "ab__cD" [.camel, .snake, .camel] = ["ab__cD", "ab_Cd", "ab__cd", "ab_Cd"] := by
    decide +kernel
  have hstate : "ab_Cd" ∈ conversions "ab__cD" [.camel, .snake, .camel] := by
    rw [hruns]
    decide
  exact ⟨hascii, hruns, (letters_conversions hascii _ _ hstate).2⟩

end TypeSketch.Naming
