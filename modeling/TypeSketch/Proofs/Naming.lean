import TypeSketch.Naming
import TypeSketch.Proofs.Text.Casing
import TypeSketch.Proofs.Text.Segments

/-! Names in the two forms. In `camelCase` a name has its characters without case as often as before, underscores apart.
On the way to `snake_case`, the first pass leaves out a word that begins where the one before it ends, and the second pass
finds it; so together they put an underscore before just those capitals that one rule about the characters next to them
picks out. -/
namespace TypeSketch.Naming

def continued (part : List Char) : List Char := if part = [] then ['_'] else capitalize part

/-- A name is its first part and the others, each behind an underscore. -/
theorem exists_parts (name : List Char) :
    ∃ first rest, segments (· = '_') name = first :: rest ∧ name = first ++ rest.flatMap ('_' :: ·) ∧
      camelChars name = first ++ rest.flatMap continued := by
  rw [camelChars]
  split
  · rename_i hs
    exact absurd hs (segments_ne_nil _ name)
  · rename_i first rest hs
    exact ⟨first, rest, hs, eq_append_flatMap_of_segments hs, rfl⟩

/-- A character without case, other than an underscore, is in a name in `camelCase` as often as before. -/
theorem count_camelChars {c : Char} (h : Caseless c) (hc : c ≠ '_') (name : List Char) :
    (camelChars name).count c = name.count c := by
  have hpart (part : List Char) : (continued part).count c = ('_' :: part).count c := by
    rw [continued, List.count_cons_of_ne hc.symm]
    split
    · rename_i hp
      rw [hp, List.count_singleton, if_neg (by simpa using hc.symm)]
      rfl
    · exact h.count_capitalize part
  obtain ⟨first, rest, -, hname, hcamel⟩ := exists_parts name
  have hrest : (rest.flatMap continued).count c = (rest.flatMap ('_' :: ·)).count c := by
    rw [List.count_flatMap, List.count_flatMap]
    exact congrArg List.sum (List.map_congr_left fun part _ => hpart part)
  rw [hcamel, List.count_append, hrest, ← List.count_append, ← hname]

/-- Whether the character at place `j` of a name is a capital that a word begins with: behind a small letter or a digit, or
behind any character but a line feed and before a small letter. -/
def opensWord (name : List Char) (j : Nat) : Bool :=
  0 < j && name[j]?.any Char.isUpper &&
    (name[j - 1]?.any (fun before => before.isLower || before.isDigit) ||
      name[j - 1]?.any (· ≠ '\n') && name[j + 1]?.any Char.isLower)

def withMark (name : List Char) (place : Char × Nat) : List Char :=
  if opensWord name place.2 then ['_', place.1] else [place.1]

/-- A name with one underscore before each place where a word begins. -/
def underscored (name : List Char) : List Char := name.zipIdx.flatMap (withMark name)

/-- A text in which the matches of a pattern, from the left and without overlaps, have got an underscore between their two
parts. What a match is may depend on the text behind it, so that a pattern can ask for the longest one. -/
inductive Replaced (Match : List Char → List Char → List Char → Prop) : List Char → List Char → Prop
  | done : Replaced Match [] []
  | found {first second behind text : List Char} (matched : Match first second behind) (rest : Replaced Match behind text) :
      Replaced Match (first ++ second ++ behind) (first ++ '_' :: second ++ text)
  | passed {c : Char} {behind text : List Char}
      (unmatched : ∀ first second rest, first ++ second ++ rest = c :: behind → ¬ Match first second rest)
      (rest : Replaced Match behind text) : Replaced Match (c :: behind) (c :: text)

/-- A character that is no line feed, and behind it a capital with all small letters that follow it, of which there
must be one. -/
inductive CapitalizedWord : List Char → List Char → List Char → Prop
  | mk {before capital small : Char} {run behind : List Char} (visible : before ≠ '\n') (capitals : capital.isUpper)
      (smalls : small.isLower) (letters : ∀ c ∈ run, c.isLower) (longest : ¬ behind.head?.any Char.isLower) :
      CapitalizedWord [before] (capital :: small :: run) behind

/-- A small letter or a digit, and behind it a capital. -/
inductive LateCapital : List Char → List Char → List Char → Prop
  | mk {before capital : Char} {behind : List Char} (lower : before.isLower ∨ before.isDigit)
      (capitals : capital.isUpper) : LateCapital [before] [capital] behind

private theorem replaced_markWords (text : List Char) : Replaced CapitalizedWord text (markWords text) := by
  fun_induction markWords text with
  | case1 before capital small rest h ih =>
    obtain ⟨hb, hc, hs⟩ := h
    have hletters : ∀ c ∈ rest.takeWhile Char.isLower, c.isLower := List.all_eq_true.1 List.all_takeWhile
    have hlongest : ¬ (rest.dropWhile Char.isLower).head?.any Char.isLower := by
      have hbehind := List.head?_dropWhile_not Char.isLower rest
      cases hd : (rest.dropWhile Char.isLower).head? with
      | none => simp
      | some c =>
        rw [hd] at hbehind
        simpa using hbehind
    have hfound := Replaced.found (.mk hb hc hs hletters hlongest) ih
    simpa [List.takeWhile_append_dropWhile] using hfound
  | case2 before capital small rest h ih =>
    refine .passed (fun first second behind heq hm => ?_) ih
    cases hm with
    | mk visible capitals smalls letters longest =>
      cases heq
      exact h ⟨visible, capitals, smalls⟩
  | case3 text h =>
    -- A match has three characters at least.
    have hnone {c : Char} {behind : List Char} (hlength : behind.length < 2) (first second rest : List Char)
        (heq : first ++ second ++ rest = c :: behind) : ¬ CapitalizedWord first second rest := by
      rintro ⟨⟩
      have := congrArg List.length heq
      simp at this
      omega
    match text, h with
    | [], _ => exact .done
    | [c], _ => exact .passed (hnone (by simp)) .done
    | [before, c], _ => exact .passed (hnone (by simp)) (.passed (hnone (by simp)) .done)
    | before :: capital :: small :: rest, h => exact absurd rfl (h before capital small rest)

private theorem replaced_markCapitals (text : List Char) : Replaced LateCapital text (markCapitals text) := by
  fun_induction markCapitals text with
  | case1 before capital rest h ih => exact .found (.mk h.1 h.2) ih
  | case2 before capital rest h ih =>
    refine .passed (fun first second behind heq hm => ?_) ih
    cases hm with
    | mk lower capitals =>
      cases heq
      exact h ⟨lower, capitals⟩
  | case3 text h =>
    match text, h with
    | [], _ => exact .done
    | [c], _ =>
      refine .passed (fun first second behind heq hm => ?_) .done
      cases hm
      cases heq
    | before :: capital :: rest, h => exact absurd rfl (h before capital rest)

def Opens (before capital : Char) (behind : Option Char) : Prop :=
  capital.isUpper ∧ (before.isLower ∨ before.isDigit ∨ (before ≠ '\n' ∧ behind.any Char.isLower))
  deriving Decidable

def markedBehind (before : Char) : List Char → List Char
  | [] => []
  | c :: rest => (if Opens before c rest.head? then ['_', c] else [c]) ++ markedBehind c rest

def marked : List Char → List Char
  | [] => []
  | c :: rest => c :: markedBehind c rest

private theorem marked_cons_cons (before c : Char) (rest : List Char) :
    marked (before :: c :: rest) =
      before :: if Opens before c rest.head? then '_' :: marked (c :: rest) else marked (c :: rest) := by
  rw [marked, markedBehind, marked]
  split <;> rfl

/-- Only capitals are marked. -/
theorem markedBehind_append (before : Char) {front : List Char} (h : ∀ c ∈ front, ¬ c.isUpper) (rest : List Char) :
    markedBehind before (front ++ rest) =
      front ++ markedBehind ((before :: front).getLast (List.cons_ne_nil _ _)) rest := by
  induction front generalizing before with
  | nil => rfl
  | cons c front ih =>
    obtain ⟨hc, hfront⟩ := List.forall_mem_cons.1 h
    rw [List.cons_append, markedBehind, if_neg fun hopens => hc hopens.1, ih c hfront]
    rfl

private theorem opensWord_iff (front rest : List Char) (before c : Char) :
    opensWord (front ++ before :: c :: rest) (front.length + 1) ↔ Opens before c rest.head? := by
  have hbefore : (front ++ before :: c :: rest)[front.length + 1 - 1]? = some before := by simp
  have hc : (front ++ before :: c :: rest)[front.length + 1]? = some c := by simp
  have hbehind : (front ++ before :: c :: rest)[front.length + 1 + 1]? = rest.head? := by
    rw [List.getElem?_append_right (by omega), List.head?_eq_getElem?]
    simp [Nat.add_assoc]
  rw [opensWord, hbefore, hc, hbehind, Opens]
  simp [or_assoc]

private theorem flatMap_zipIdx (front : List Char) (before : Char) (text : List Char) :
    (text.zipIdx (front.length + 1)).flatMap (withMark (front ++ before :: text)) = markedBehind before text := by
  induction text generalizing front before with
  | nil => rfl
  | cons c rest ih =>
    have hname : front ++ before :: c :: rest = (front ++ [before]) ++ c :: rest := by simp
    have hrest := ih (front ++ [before]) c
    rw [← hname, List.length_append, List.length_singleton] at hrest
    rw [List.zipIdx_cons, List.flatMap_cons, hrest, markedBehind, withMark]
    simp only [opensWord_iff]

private theorem markCapitals_cons {c : Char} (h : c.isUpper) (rest : List Char) :
    markCapitals (c :: rest) = c :: markCapitals rest := by
  cases rest with
  | nil => rfl
  | cons d rest =>
    rw [markCapitals, if_neg]
    rintro ⟨hl | hd, -⟩
    · exact not_isUpper_of_isLower hl h
    · exact not_isUpper_of_isDigit hd h

private theorem markCapitals_cons_cons (before c : Char) (rest : List Char) :
    markCapitals (before :: c :: rest) =
      before :: if (before.isLower ∨ before.isDigit) ∧ c.isUpper then '_' :: markCapitals (c :: rest)
        else markCapitals (c :: rest) := by
  rw [markCapitals]
  split
  · rw [markCapitals_cons (And.right ‹_›)]
  · rfl

private theorem markWords_cons (c : Char) (rest : List Char) : ∃ more, markWords (c :: rest) = c :: more := by
  unfold markWords
  split
  · rename_i heq
    cases heq
    split
    · exact ⟨_, rfl⟩
    · exact ⟨_, rfl⟩
  · exact ⟨rest, rfl⟩

private theorem markCapitals_run {small : Char} (hs : small.isLower) (rest : List Char)
    (h : markCapitals (markWords (rest.dropWhile Char.isLower)) = marked (rest.dropWhile Char.isLower)) :
    markCapitals (small :: (rest.takeWhile Char.isLower ++ markWords (rest.dropWhile Char.isLower))) =
      marked (small :: rest) := by
  induction rest generalizing small with
  | nil => simp [markWords, markCapitals, marked, markedBehind]
  | cons c rest ih =>
    by_cases hc : c.isLower
    · have hcapital : ¬ c.isUpper := not_isUpper_of_isLower hc
      rw [List.dropWhile_cons_of_pos hc] at h ⊢
      rw [List.takeWhile_cons_of_pos hc, List.cons_append, markCapitals_cons_cons, if_neg (fun hu => hcapital hu.2),
        ih hc h, marked_cons_cons, if_neg (fun hu => hcapital hu.1)]
    · -- Behind a small letter every capital opens a word, whatever follows it.
      have hopens : Opens small c rest.head? ↔ (small.isLower ∨ small.isDigit) ∧ c.isUpper := by simp [Opens, hs]
      rw [List.dropWhile_cons_of_neg hc] at h ⊢
      obtain ⟨more, hm⟩ := markWords_cons c rest
      rw [hm] at h ⊢
      rw [List.takeWhile_cons_of_neg hc, List.nil_append, markCapitals_cons_cons, h, marked_cons_cons]
      simp only [hopens]

/-- Both passes together mark where the rule says. -/
theorem markCapitals_markWords (text : List Char) : markCapitals (markWords text) = marked text := by
  fun_induction markWords text with
  | case1 before capital small rest h ih =>
    obtain ⟨hb, hc, hs⟩ := h
    have hopens : Opens before capital (some small) := ⟨hc, .inr (.inr ⟨hb, hs⟩)⟩
    have hsmall : ¬ Opens capital small rest.head? := fun hu => not_isUpper_of_isLower hs hu.1
    calc
      _ = before :: '_' :: capital ::
            markCapitals (small :: (rest.takeWhile Char.isLower ++ markWords (rest.dropWhile Char.isLower))) := by
          rw [List.cons_append, List.cons_append, List.cons_append, List.cons_append, markCapitals_cons_cons,
            if_neg (by simp), markCapitals_cons_cons, if_neg (by simp), markCapitals_cons hc]
      _ = before :: '_' :: capital :: marked (small :: rest) := by rw [markCapitals_run hs rest ih]
      _ = marked (before :: capital :: small :: rest) := by
          rw [marked_cons_cons, List.head?_cons, if_pos hopens, marked_cons_cons, if_neg hsmall]
  | case2 before capital small rest h ih =>
    -- Without a word behind `before`, the rule asks for what the second pass looks for.
    have hopens : Opens before capital (some small) ↔ (before.isLower ∨ before.isDigit) ∧ capital.isUpper := by
      constructor
      · rintro ⟨hc, hl | hd | ⟨hb, hs⟩⟩
        · exact ⟨.inl hl, hc⟩
        · exact ⟨.inr hd, hc⟩
        · exact absurd ⟨hb, hc, hs⟩ h
      · rintro ⟨hb, hc⟩
        exact ⟨hc, hb.imp_right .inl⟩
    obtain ⟨more, hm⟩ := markWords_cons capital (small :: rest)
    rw [hm] at ih ⊢
    rw [markCapitals_cons_cons, ih, marked_cons_cons before]
    simp only [List.head?_cons, hopens]
  | case3 text h =>
    match text, h with
    | [], _ => rfl
    | [c], _ => rfl
    | [before, c], _ =>
      rw [marked_cons_cons, markCapitals_cons_cons]
      simp [Opens, marked, markedBehind, markCapitals, and_comm]
    | before :: capital :: small :: rest, h => exact absurd rfl (h before capital small rest)

private theorem marked_eq_underscored (name : List Char) : marked name = underscored name := by
  cases name with
  | nil => rfl
  | cons c rest =>
    have hrest := flatMap_zipIdx [] c rest
    have hfirst : ¬ opensWord (c :: rest) 0 := by simp [opensWord]
    rw [underscored, List.zipIdx_cons, List.flatMap_cons, withMark, if_neg hfirst]
    exact congrArg (c :: ·) hrest.symm

/-- A name in `snake_case`. The two replacements, one after the other, put one underscore before each place where a word
begins and nothing else; and of that text it is the lower case. -/
theorem toSnakeCase_eq_underscored (name : String) :
    (∃ once, Replaced CapitalizedWord name.toList once ∧ Replaced LateCapital once (underscored name.toList)) ∧
      toSnakeCase name = String.ofList (lowercase (underscored name.toList)) := by
  have hpasses : markCapitals (markWords name.toList) = underscored name.toList := by
    rw [markCapitals_markWords, marked_eq_underscored]
  refine ⟨⟨markWords name.toList, replaced_markWords _, ?_⟩, ?_⟩
  · rw [← hpasses]
    exact replaced_markCapitals _
  · rw [toSnakeCase, snakeChars, hpasses]

end TypeSketch.Naming
