import Mathlib.Data.List.Chain
import TypeSketch.Proofs.Naming

/-! Names on their way to the other form and back. The words of a name in `snake_case` begin with capitals in `camelCase`.
A capital that a small letter or a digit stands before begins a word again; behind a word of one letter there is a capital
before it, and then it begins a word only if a small letter follows. So a name comes back, in either form, exactly if no
word of one letter has a word behind it whose second character is no small letter. -/
namespace TypeSketch.Naming

def IsSmall (c : Char) : Prop := c.isLower ∨ c.isDigit
  deriving Decidable

/-- A word inside a name: a letter of one kind, and behind it small letters and digits. -/
inductive IsWord (opening : Char → Bool) : List Char → Prop
  | mk {c : Char} {rest : List Char} (opens : opening c) (smalls : ∀ d ∈ rest, IsSmall d) : IsWord opening (c :: rest)

instance (opening : Char → Bool) : DecidablePred (IsWord opening)
  | [] => isFalse nofun
  | c :: rest =>
    decidable_of_iff (opening c ∧ rest.all (IsSmall ·))
      ⟨fun ⟨opens, smalls⟩ => .mk opens (by simpa using smalls), fun | .mk opens smalls => ⟨opens, by simpa using smalls⟩⟩

/-- A name by its words. The first may begin with a digit, each of the others begins with a letter of one kind. -/
@[ext]
structure Wording (opening : Char → Bool) where
  first : List Char
  words : List (List Char)
  nonempty : first ≠ []
  smalls : ∀ c ∈ first, IsSmall c
  areWords : ∀ word ∈ words, IsWord opening word

def Wording.snake (wording : Wording Char.isLower) : String :=
  String.ofList (wording.first ++ wording.words.flatMap ('_' :: ·))

def Wording.camel (wording : Wording Char.isUpper) : String :=
  String.ofList (wording.first ++ wording.words.flatten)

/-- Two words that are still two when there is no underscore between them. -/
def Apart (word next : List Char) : Prop := word.length ≠ 1 ∨ next[1]?.any Char.isLower
  deriving Decidable

namespace IsSmall
variable {c : Char}

private theorem not_isUpper (h : IsSmall c) : ¬ c.isUpper := by
  rcases h with hl | hd
  · exact not_isUpper_of_isLower hl
  · exact not_isUpper_of_isDigit hd

private theorem toLower_eq (h : IsSmall c) : c.toLower = c := toLower_eq_self h.not_isUpper

theorem ascii (h : IsSmall c) : c.toNat < 0x80 := by
  rcases h with hl | hd
  · exact ascii_of_isLower hl
  · exact ascii_of_isAlphanum (Bool.or_eq_true_iff.2 (.inr hd))

private theorem ne_underscore (h : IsSmall c) : c ≠ '_' := by
  rintro rfl
  rcases h with h | h <;> cases h

private theorem not_separates (h : IsSmall c) : ¬ decide (c = '_') := by simpa using h.ne_underscore

private theorem map_toLower {text : List Char} (h : ∀ c ∈ text, IsSmall c) : text.map Char.toLower = text := by
  rw [List.map_congr_left fun c hc => (h c hc).toLower_eq, List.map_id']

end IsSmall

def raised : List Char → List Char
  | [] => []
  | c :: rest => c.toUpper :: rest

def lowered : List Char → List Char
  | [] => []
  | c :: rest => c.toLower :: rest

namespace IsWord
variable {word : List Char}

theorem smalls (h : IsWord Char.isLower word) : ∀ c ∈ word, IsSmall c := by
  cases h with
  | mk opens smalls => exact List.forall_mem_cons.2 ⟨.inl opens, smalls⟩

private theorem capitalize_eq (h : IsWord Char.isLower word) : capitalize word = raised word := by
  have hascii : ∀ c ∈ word, c.toNat < 0x80 := fun c hc => (h.smalls c hc).ascii
  cases h with
  | mk opens smalls => rw [capitalize_of_ascii hascii, IsSmall.map_toLower smalls, raised]

theorem raised (h : IsWord Char.isLower word) : IsWord Char.isUpper (raised word) := by
  cases h with
  | mk opens smalls => exact .mk (toUpper_of_isLower opens).1 smalls

theorem lowered (h : IsWord Char.isUpper word) : IsWord Char.isLower (lowered word) := by
  cases h with
  | mk opens smalls => exact .mk (toLower_of_isUpper opens).1 smalls

private theorem ne_nil {opening : Char → Bool} (h : IsWord opening word) : word ≠ [] := by
  cases h with
  | mk opens smalls => exact List.cons_ne_nil _ _

theorem ascii (h : IsWord Char.isUpper word) : ∀ c ∈ word, c.toNat < 0x80 := by
  cases h with
  | mk opens smalls =>
    rw [List.forall_mem_cons]
    exact ⟨ascii_of_isUpper opens, fun c hc => (smalls c hc).ascii⟩

private theorem raised_lowered (h : IsWord Char.isUpper word) : Naming.raised (Naming.lowered word) = word := by
  cases h with
  | mk opens smalls => rw [Naming.lowered, Naming.raised, (toLower_of_isUpper opens).2]

end IsWord

/-- With capitals in front words are apart just if they are without. -/
theorem apart_raised (word next : List Char) : Apart (raised word) (raised next) ↔ Apart word next := by
  have hlength : (raised word).length = word.length := by cases word <;> rfl
  have hsecond : (raised next)[1]? = next[1]? := by cases next <;> rfl
  rw [Apart, Apart, hlength, hsecond]

/-- The words behind another one, each behind an underscore if it stays apart from the one before it. -/
def rejoined (before : List Char) : List (List Char) → List Char
  | [] => []
  | word :: rest => (if Apart before word then '_' :: word else word) ++ rejoined word rest

private def EndsIn (word : List Char) (last : Char) : Prop :=
  (word.length = 1 ∧ last.isUpper) ∨ (word.length ≠ 1 ∧ IsSmall last)

private theorem opens_iff_apart {before : List Char} {last : Char} (hl : EndsIn before last) {c : Char} (hc : c.isUpper)
    (word : List Char) {rest : List Char} (hr : ¬ rest.head?.any Char.isLower) (d : Char) :
    Opens last c (word ++ rest).head? ↔ Apart before (d :: word) := by
  have hsecond : (word ++ rest).head?.any Char.isLower ↔ (d :: word)[1]?.any Char.isLower := by
    cases word with
    | nil => simpa using hr
    | cons e word => rfl
  rcases hl with ⟨hlength, hupper⟩ | ⟨hlength, hsmall⟩
  · have hline : last ≠ '\n' := by
      rintro rfl
      cases hupper
    have hlower : ¬ last.isLower := fun h => not_isUpper_of_isLower h hupper
    have hdigit : ¬ last.isDigit := fun h => not_isUpper_of_isDigit h hupper
    rw [Opens, Apart, hsecond]
    simp only [hc, hlower, hdigit, hline, hlength, ne_eq, not_true_eq_false, not_false_eq_true, true_and, false_or,
      Bool.false_eq_true]
  · have hopens : Opens last c (word ++ rest).head? := ⟨hc, hsmall.elim .inl fun h => .inr (.inl h)⟩
    exact iff_of_true hopens (.inl hlength)

private theorem not_isLower_head_raised {words : List (List Char)} (h : ∀ word ∈ words, IsWord Char.isLower word) :
    ¬ (words.flatMap raised).head?.any Char.isLower := by
  cases words with
  | nil => simp
  | cons word words =>
    cases h word List.mem_cons_self with
    | mk opens smalls => exact fun hl => not_isUpper_of_isLower hl (toUpper_of_isLower opens).1

private theorem markedBehind_words {words : List (List Char)} (h : ∀ word ∈ words, IsWord Char.isLower word)
    {before : List Char} {last : Char} (hl : EndsIn before last) :
    (markedBehind last (words.flatMap raised)).map Char.toLower = rejoined before words := by
  induction words generalizing before last with
  | nil => rfl
  | cons word words ih =>
    rw [List.forall_mem_cons] at h
    obtain ⟨hword, hwords⟩ := h
    cases hword with
    | @mk c rest opens smalls =>
      obtain ⟨hupper, hlower⟩ := toUpper_of_isLower opens
      have hcapitals : ∀ d ∈ rest, ¬ d.isUpper := fun d hd => (smalls d hd).not_isUpper
      have hends : EndsIn (c :: rest) ((c.toUpper :: rest).getLast (List.cons_ne_nil _ _)) := by
        cases rest with
        | nil => exact .inl ⟨rfl, hupper⟩
        | cons d rest => exact .inr ⟨by simp, smalls _ (List.getLast_mem (List.cons_ne_nil d rest))⟩
      have hopens := opens_iff_apart hl hupper rest (not_isLower_head_raised hwords) c
      rw [List.flatMap_cons, raised, List.cons_append, markedBehind, markedBehind_append _ hcapitals, rejoined,
        ← ih hwords hends]
      simp only [hopens, List.map_append, IsSmall.map_toLower smalls]
      split <;> simp [hlower]

private theorem mem_markedBehind {c before : Char} {text : List Char} (h : c ∈ markedBehind before text) :
    c = '_' ∨ c ∈ text := by
  induction text generalizing before with
  | nil => cases h
  | cons d text ih =>
    rw [markedBehind, List.mem_append] at h
    rcases h with hd | ht
    · split at hd
      · exact (List.mem_cons.1 hd).imp_right fun hc => List.mem_cons.2 (.inl (List.mem_singleton.1 hc))
      · exact .inr (List.mem_cons.2 (.inl (List.mem_singleton.1 hd)))
    · exact (ih ht).imp_right (List.mem_cons_of_mem d)

private theorem snakeChars_words {first : List Char} (hn : first ≠ []) (hf : ∀ c ∈ first, IsSmall c)
    {words : List (List Char)} (hw : ∀ word ∈ words, IsWord Char.isLower word) :
    snakeChars (first ++ words.flatMap raised) = first ++ rejoined [] words := by
  obtain ⟨c, rest, rfl⟩ := List.exists_cons_of_ne_nil hn
  have hcapitals : ∀ d ∈ rest, ¬ d.isUpper := fun d hd => (hf d (List.mem_cons_of_mem c hd)).not_isUpper
  have hends : EndsIn [] ((c :: rest).getLast hn) := .inr ⟨by simp, hf _ (List.getLast_mem hn)⟩
  have hascii : ∀ d ∈ c :: rest ++ markedBehind ((c :: rest).getLast hn) (words.flatMap raised), d.toNat < 0x80 := by
    intro d hd
    rcases List.mem_append.1 hd with hsmall | hmarked
    · exact (hf d hsmall).ascii
    · rcases mem_markedBehind hmarked with rfl | hword
      · decide
      · obtain ⟨word, hm, hr⟩ := List.mem_flatMap.1 hword
        exact (hw word hm).raised.ascii d hr
  calc
    _ = lowercase (c :: rest ++ markedBehind ((c :: rest).getLast hn) (words.flatMap raised)) := by
      rw [snakeChars, markCapitals_markWords, List.cons_append, marked, markedBehind_append c hcapitals, List.cons_append]
    _ = c :: rest ++ rejoined [] words := by
      rw [lowercase_of_ascii hascii, List.map_append, IsSmall.map_toLower hf, markedBehind_words hw hends]

private theorem rejoined_of_isChain {before : List Char} {words : List (List Char)}
    (h : (before :: words).IsChain Apart) : rejoined before words = words.flatMap ('_' :: ·) := by
  induction words generalizing before with
  | nil => rfl
  | cons word words ih =>
    obtain ⟨hapart, hwords⟩ := List.isChain_cons_cons.1 h
    rw [rejoined, if_pos hapart, ih hwords, List.flatMap_cons]

private theorem count_rejoined_le (before : List Char) {words : List (List Char)} (h : ∀ word ∈ words, '_' ∉ word) :
    (rejoined before words).count '_' ≤ words.length := by
  induction words generalizing before with
  | nil => rfl
  | cons word words ih =>
    rw [List.forall_mem_cons] at h
    have hword : word.count '_' = 0 := List.count_eq_zero.2 h.1
    have hwords := ih word h.2
    rw [rejoined, List.count_append]
    split <;> simp [hword] <;> omega

private theorem isChain_of_count_rejoined {before : List Char} {words : List (List Char)}
    (h : ∀ word ∈ words, '_' ∉ word) (hc : (rejoined before words).count '_' = words.length) :
    (before :: words).IsChain Apart := by
  induction words generalizing before with
  | nil => exact List.isChain_singleton before
  | cons word words ih =>
    rw [List.forall_mem_cons] at h
    have hword : word.count '_' = 0 := List.count_eq_zero.2 h.1
    rw [rejoined, List.count_append, List.length_cons] at hc
    split at hc
    · rename_i hapart
      rw [List.count_cons_self, hword] at hc
      exact List.isChain_cons_cons.2 ⟨hapart, ih h.2 (by omega)⟩
    · -- Without the underscore here, the others cannot make up for it.
      have hle := count_rejoined_le word h.2
      rw [hword] at hc
      omega

private theorem isChain_cons_nil (words : List (List Char)) : ([] :: words).IsChain Apart ↔ words.IsChain Apart := by
  rw [List.isChain_cons, and_iff_right]
  intro word _
  exact .inl (by simp)

private theorem camelChars_words {first : List Char} (hf : ∀ c ∈ first, IsSmall c) {words : List (List Char)}
    (hw : ∀ word ∈ words, IsWord Char.isLower word) :
    camelChars (first ++ words.flatMap ('_' :: ·)) = first ++ words.flatMap raised := by
  have hwords : ∀ word ∈ words, ∀ c ∈ word, ¬ decide (c = '_') := by
    intro word hm c hc
    exact ((hw word hm).smalls c hc).not_separates
  rw [camelChars, segments_append_flatMap (by decide) (fun c hc => (hf c hc).not_separates) hwords]
  refine congrArg (first ++ ·) (List.flatMap_congr fun word hm => ?_)
  rw [if_neg (hw word hm).ne_nil, (hw word hm).capitalize_eq]

private theorem countP_isUpper_smalls {text : List Char} (h : ∀ c ∈ text, IsSmall c) : text.countP Char.isUpper = 0 :=
  List.countP_eq_zero.2 fun c hc => (h c hc).not_isUpper

private theorem countP_isUpper_raised {words : List (List Char)} (h : ∀ word ∈ words, IsWord Char.isLower word) :
    (words.flatMap raised).countP Char.isUpper = words.length := by
  induction words with
  | nil => rfl
  | cons word words ih =>
    obtain ⟨hword, hwords⟩ := List.forall_mem_cons.1 h
    have hcapital : (raised word).countP Char.isUpper = 1 := by
      cases hword with
      | mk opens smalls => simp [raised, (toUpper_of_isLower opens).1, countP_isUpper_smalls smalls]
    rw [List.flatMap_cons, List.countP_append, hcapital, ih hwords, List.length_cons, Nat.add_comm]

private theorem countP_isUpper_capitalize {word : List Char} (h : ∀ c ∈ word, IsSmall c) :
    (capitalize word).countP Char.isUpper ≤ 1 := by
  cases word with
  | nil => exact Nat.zero_le 1
  | cons c rest =>
    have hrest : (rest.map Char.toLower).countP Char.isUpper = 0 :=
      List.countP_eq_zero.2 (List.forall_mem_map.2 fun d _ => not_isUpper_toLower d)
    rw [capitalize_of_ascii fun d hd => (h d hd).ascii, List.countP_cons, hrest]
    split <;> simp

private theorem countP_isUpper_parts {parts : List (List Char)} (h : ∀ part ∈ parts, ∀ c ∈ part, IsSmall c) :
    (parts.flatMap continued).countP Char.isUpper ≤ parts.length := by
  induction parts with
  | nil => rfl
  | cons part parts ih =>
    obtain ⟨hpart, hparts⟩ := List.forall_mem_cons.1 h
    have hone : (continued part).countP Char.isUpper ≤ 1 := by
      rw [continued]
      split
      · exact Nat.zero_le 1
      · exact countP_isUpper_capitalize hpart
    rw [List.flatMap_cons, List.countP_append, List.length_cons, Nat.add_comm]
    exact Nat.add_le_add (ih hparts) hone

private theorem countP_isUpper_camelChars {name : List Char} (h : ∀ c ∈ name, IsSmall c ∨ c = '_') :
    (camelChars name).countP Char.isUpper ≤ name.count '_' := by
  obtain ⟨first, rest, hs, -, hcamel⟩ := exists_parts name
  have hparts : ∀ part ∈ first :: rest, ∀ c ∈ part, IsSmall c := by
    intro part hp c hc
    rw [← hs] at hp
    obtain ⟨hm, hu⟩ := mem_segments hp hc
    exact (h c hm).resolve_right (by simpa using hu)
  have hlength : (segments (· = '_') name).length = name.count '_' + 1 := length_segments (· = '_') name
  rw [List.forall_mem_cons] at hparts
  rw [hs, List.length_cons] at hlength
  rw [hcamel, List.countP_append, countP_isUpper_smalls hparts.1, Nat.zero_add, ← Nat.succ.inj hlength]
  exact countP_isUpper_parts hparts.2

private theorem mem_rejoined {c : Char} {before : List Char} {words : List (List Char)} (h : c ∈ rejoined before words) :
    c = '_' ∨ ∃ word ∈ words, c ∈ word := by
  induction words generalizing before with
  | nil => cases h
  | cons word words ih =>
    rw [rejoined, List.mem_append] at h
    rcases h with hword | hwords
    · split at hword
      · exact (List.mem_cons.1 hword).imp_right fun hc => ⟨word, List.mem_cons_self, hc⟩
      · exact .inr ⟨word, List.mem_cons_self, hword⟩
    · exact (ih hwords).imp_right fun ⟨other, ho, hc⟩ => ⟨other, List.mem_cons_of_mem word ho, hc⟩

section
variable {first : List Char} (hf : ∀ c ∈ first, IsSmall c) {words : List (List Char)}
  (hw : ∀ word ∈ words, IsWord Char.isLower word)
include hw

private theorem notMem_words : ∀ word ∈ words, '_' ∉ word := by
  intro word hm hc
  exact ((hw word hm).smalls _ hc).ne_underscore rfl

private theorem count_words : (words.flatMap ('_' :: ·)).count '_' = words.length := by
  have hone : ∀ n ∈ words.map (List.count '_' ∘ ('_' :: ·)), n = 1 := by
    intro n hn
    obtain ⟨word, hm, rfl⟩ := List.mem_map.1 hn
    rw [Function.comp_apply, List.count_cons_self, List.count_eq_zero.2 (notMem_words hw word hm)]
  rw [List.count_flatMap, List.eq_replicate_of_mem hone, List.sum_replicate_nat, List.length_map, Nat.mul_one]

private theorem rejoined_eq_iff : rejoined [] words = words.flatMap ('_' :: ·) ↔ words.IsChain Apart := by
  rw [← isChain_cons_nil]
  constructor
  · intro h
    apply isChain_of_count_rejoined (notMem_words hw)
    rw [h, count_words hw]
  · exact rejoined_of_isChain

include hf

private theorem camelChars_rejoined_iff :
    camelChars (first ++ rejoined [] words) = first ++ words.flatMap raised ↔ words.IsChain Apart := by
  constructor
  · intro h
    have hsmalls : ∀ c ∈ first ++ rejoined [] words, IsSmall c ∨ c = '_' := by
      intro c hc
      rcases List.mem_append.1 hc with hfirst | hrest
      · exact .inl (hf c hfirst)
      · rcases mem_rejoined hrest with rfl | ⟨word, hm, hword⟩
        · exact .inr rfl
        · exact .inl ((hw word hm).smalls c hword)
    have hfirst : first.count '_' = 0 := List.count_eq_zero.2 fun hc => (hf _ hc).ne_underscore rfl
    have hcapitals := countP_isUpper_camelChars hsmalls
    rw [h, List.countP_append, countP_isUpper_smalls hf, countP_isUpper_raised hw, List.count_append, hfirst, Nat.zero_add,
      Nat.zero_add] at hcapitals
    have hcount := (count_rejoined_le [] (notMem_words hw)).antisymm hcapitals
    exact (isChain_cons_nil words).1 (isChain_of_count_rejoined (notMem_words hw) hcount)
  · intro h
    rw [(rejoined_eq_iff hw).2 h, camelChars_words hf hw]

end

namespace Wording

def raised (name : Wording Char.isLower) : Wording Char.isUpper where
  first := name.first
  words := name.words.map Naming.raised
  nonempty := name.nonempty
  smalls := name.smalls
  areWords := List.forall_mem_map.2 fun word hm => (name.areWords word hm).raised

/-- Words with capitals are those that begin with the small letters instead. -/
theorem exists_raised (name : Wording Char.isUpper) : ∃ small : Wording Char.isLower, small.raised = name := by
  have hwords : (name.words.map lowered).map Naming.raised = name.words := by
    rw [List.map_map]
    exact (List.map_congr_left fun word hm => (name.areWords word hm).raised_lowered).trans (List.map_id _)
  refine ⟨⟨name.first, name.words.map lowered, name.nonempty, name.smalls, ?_⟩, Wording.ext rfl hwords⟩
  exact List.forall_mem_map.2 fun word hm => (name.areWords word hm).lowered

/-- In `camelCase` each word of the name begins with its capital. -/
theorem toCamelCase_snake (name : Wording Char.isLower) : toCamelCase name.snake = name.raised.camel := by
  rw [toCamelCase, snake, String.toList_ofList, camelChars_words name.smalls name.areWords, camel, raised,
    List.flatMap_def]

/-- On the way back the words that stay apart get their underscores. -/
theorem toSnakeCase_camel (name : Wording Char.isLower) :
    toSnakeCase name.raised.camel = String.ofList (name.first ++ rejoined [] name.words) := by
  rw [toSnakeCase, camel, raised, String.toList_ofList, ← List.flatMap_def,
    snakeChars_words name.nonempty name.smalls name.areWords]

end Wording

/-- A name in either form comes back from the other one if and only if every two words in a row, the first one left out,
stay apart. -/
theorem roundTrip_iff_apart :
    (∀ name : Wording Char.isLower, toSnakeCase (toCamelCase name.snake) = name.snake ↔ name.words.IsChain Apart) ∧
      ∀ name : Wording Char.isUpper, toCamelCase (toSnakeCase name.camel) = name.camel ↔ name.words.IsChain Apart := by
  constructor
  · intro name
    rw [name.toCamelCase_snake, name.toSnakeCase_camel, Wording.snake, String.ofList_inj, List.append_cancel_left_eq,
      rejoined_eq_iff name.areWords]
  · intro name
    obtain ⟨small, rfl⟩ := name.exists_raised
    have hwords : small.raised.words.IsChain Apart ↔ small.words.IsChain Apart := by
      rw [Wording.raised, List.isChain_map]
      simp only [apart_raised]
    rw [hwords, small.toSnakeCase_camel, toCamelCase, String.toList_ofList, Wording.camel, String.ofList_inj, Wording.raised,
      ← List.flatMap_def, camelChars_rejoined_iff small.smalls small.areWords]

/-- Words of which the second to last has one letter, and a digit follows the first letter of the last. -/
def meeting : Wording Char.isLower where
  first := ['x', '1']
  words := [['i', 's'], ['a'], ['b', '2']]
  nonempty := by decide
  smalls := by simp [IsSmall]
  areWords := by decide

/-- The last two words become one, so the name comes back from neither form. -/
theorem roundTrip_iff_apart_meeting :
    (meeting.snake = "x1_is_a_b2" ∧ toSnakeCase (toCamelCase "x1_is_a_b2") ≠ "x1_is_a_b2") ∧
      meeting.raised.camel = "x1IsAB2" ∧ toCamelCase (toSnakeCase "x1IsAB2") ≠ "x1IsAB2" := by
  have hmeet : ¬ meeting.words.IsChain Apart := by decide
  have hraised : ¬ meeting.raised.words.IsChain Apart := by decide
  exact ⟨⟨rfl, mt (roundTrip_iff_apart.1 meeting).1 hmeet⟩, rfl, mt (roundTrip_iff_apart.2 meeting.raised).1 hraised⟩

end TypeSketch.Naming
