import TypeSketch.Text.Segments
import TypeSketch.Proofs.Text.CaseTable

/-! Case in texts. In texts of ASCII every character is one in the other case too and no word end matters. A character
without case, as every blank is, is kept as it is, and none other is converted into it. The lower case of a text is its own
lower case. -/
namespace TypeSketch

/-- Letters and digits are those of ASCII. -/
theorem ascii_of_isAlphanum {c : Char} (h : c.isAlphanum) : c.toNat < 0x80 := by
  have hbound {last : Char} (hl : c.val ≤ last.val) (ha : last.toNat < 0x80) : c.toNat < 0x80 :=
    Nat.lt_of_le_of_lt (UInt32.le_iff_toNat_le.mp hl) ha
  rcases Bool.or_eq_true_iff.mp h with halpha | hdigit
  · rcases Bool.or_eq_true_iff.mp halpha with hupper | hlower
    · have hz : c.val ≤ 'Z'.val := (of_decide_eq_true hupper).2
      exact hbound hz (by decide)
    · have hz : c.val ≤ 'z'.val := of_decide_eq_true (Bool.and_eq_true_iff.mp hlower).2
      exact hbound hz (by decide)
  · have h9 : c.val ≤ '9'.val := of_decide_eq_true (Bool.and_eq_true_iff.mp hdigit).2
    exact hbound h9 (by decide)

theorem ascii_of_isAlpha {c : Char} (h : c.isAlpha) : c.toNat < 0x80 :=
  ascii_of_isAlphanum (Bool.or_eq_true_iff.2 (.inl h))

theorem ascii_of_isUpper {c : Char} (h : c.isUpper) : c.toNat < 0x80 :=
  ascii_of_isAlpha (Bool.or_eq_true_iff.2 (.inl h))

theorem ascii_of_isLower {c : Char} (h : c.isLower) : c.toNat < 0x80 :=
  ascii_of_isAlpha (Bool.or_eq_true_iff.2 (.inr h))

theorem not_isUpper_of_isLower {c : Char} (h : c.isLower) : ¬ c.isUpper := by
  intro hu
  have ha : 'a'.val ≤ c.val := of_decide_eq_true (Bool.and_eq_true_iff.1 h).1
  have hz : c.val ≤ 'Z'.val := (of_decide_eq_true hu).2
  exact absurd (UInt32.le_trans ha hz) (by decide)

theorem not_isUpper_of_isDigit {c : Char} (h : c.isDigit) : ¬ c.isUpper := by
  intro hu
  have h9 : c.val ≤ '9'.val := of_decide_eq_true (Bool.and_eq_true_iff.1 h).2
  have ha : 'A'.val ≤ c.val := (of_decide_eq_true hu).1
  exact absurd (UInt32.le_trans ha h9) (by decide)

/-- Lower case changes capitals only. -/
theorem toLower_eq_self {c : Char} (h : ¬ c.isUpper) : c.toLower = c := dif_neg (mt decide_eq_true h)

/-- Upper case changes small letters only. -/
theorem toUpper_eq_self {c : Char} (h : ¬ c.isLower) : c.toUpper = c :=
  dif_neg fun hc => h (Bool.and_eq_true_iff.2 ⟨decide_eq_true hc.1, decide_eq_true hc.2⟩)

private theorem forall_ascii {p : Char → Prop} (h : ∀ code < 0x80, p (Char.ofNat code)) (c : Char) (hc : c.toNat < 0x80) :
    p c := by
  have hcode := h c.toNat hc
  rwa [Char.ofNat_toNat] at hcode

/-- A capital of ASCII is that of a small letter. -/
theorem toLower_of_isUpper {c : Char} (h : c.isUpper) : c.toLower.isLower ∧ c.toLower.toUpper = c := by
  have hletters := @forall_ascii (fun c => c.isUpper → c.toLower.isLower ∧ c.toLower.toUpper = c) (by decide +kernel)
  exact hletters c (ascii_of_isUpper h) h

/-- A small letter of ASCII is that of a capital. -/
theorem toUpper_of_isLower {c : Char} (h : c.isLower) : c.toUpper.isUpper ∧ c.toUpper.toLower = c := by
  have hletters := @forall_ascii (fun c => c.isLower → c.toUpper.isUpper ∧ c.toUpper.toLower = c) (by decide +kernel)
  exact hletters c (ascii_of_isLower h) h

/-- Lower case leaves no capital. -/
theorem not_isUpper_toLower (c : Char) : ¬ c.toLower.isUpper := by
  by_cases h : c.isUpper
  · exact not_isUpper_of_isLower (toLower_of_isUpper h).1
  · rwa [toLower_eq_self h]

/-- The lower case of a character is that of its upper case. -/
theorem toLower_toUpper (c : Char) : c.toUpper.toLower = c.toLower := by
  by_cases h : c.isLower
  · rw [(toUpper_of_isLower h).2, toLower_eq_self (not_isUpper_of_isLower h)]
  · rw [toUpper_eq_self h]

private theorem convert_upper_ascii {code : Nat} (h : code < 0x80) :
    (CaseTable.convert CaseTable.upperExpansions CaseTable.upperShifts code).map Char.ofNat =
      [(Char.ofNat code).toUpper] := by
  have htable : ∀ code < 0x80, (CaseTable.convert [] (CaseTable.upperShifts.take 1) code).map Char.ofNat =
      [(Char.ofNat code).toUpper] := by
    decide +kernel
  rw [CaseTable.convert_below 1 (by decide) (by decide) h, htable code h]

/-- In ASCII the table of upper case has the small letters only. -/
theorem upper_of_ascii {c : Char} (h : c.toNat < 0x80) : upper c = [c.toUpper] := by
  rw [upper, convert_upper_ascii h, Char.ofNat_toNat]

private theorem convert_lower_ascii {code : Nat} (h : code < 0x80) :
    (CaseTable.convert CaseTable.lowerExpansions CaseTable.lowerShifts code).map Char.ofNat =
      [(Char.ofNat code).toLower] := by
  have htable : ∀ code < 0x80, (CaseTable.convert [] (CaseTable.lowerShifts.take 1) code).map Char.ofNat =
      [(Char.ofNat code).toLower] := by
    decide +kernel
  rw [CaseTable.convert_below 1 (by decide) (by decide) h, htable code h]

/-- In ASCII the table of lower case has the capitals only. -/
theorem lower_of_ascii {c : Char} (h : c.toNat < 0x80) : lower c = [c.toLower] := by
  rw [lower, convert_lower_ascii h, Char.ofNat_toNat]

private theorem lowercaseBehind_of_ascii (before : List Char) {text : List Char} (h : ∀ c ∈ text, c.toNat < 0x80) :
    lowercaseBehind before text = text.map Char.toLower := by
  induction text generalizing before with
  | nil => rfl
  | cons c text ih =>
    rw [List.forall_mem_cons] at h
    have hsigma : c ≠ 'Σ' := by
      rintro rfl
      exact absurd h.1 (by decide)
    rw [lowercaseBehind, if_neg hsigma, lower_of_ascii h.1, ih _ h.2]
    rfl

/-- In a text of ASCII each character has its own lower case. -/
theorem lowercase_of_ascii {text : List Char} (h : ∀ c ∈ text, c.toNat < 0x80) :
    lowercase text = text.map Char.toLower :=
  lowercaseBehind_of_ascii [] h

private theorem flatMap_lower_of_ascii {text : List Char} (h : ∀ c ∈ text, c.toNat < 0x80) :
    text.flatMap lower = text.map Char.toLower := by
  induction text with
  | nil => rfl
  | cons c text ih =>
    rw [List.forall_mem_cons] at h
    rw [List.flatMap_cons, lower_of_ascii h.1, ih h.2]
    rfl

/-- In a word of ASCII the first character is put into upper case and the others into lower case. -/
theorem capitalize_of_ascii {c : Char} {rest : List Char} (h : ∀ d ∈ c :: rest, d.toNat < 0x80) :
    capitalize (c :: rest) = c.toUpper :: rest.map Char.toLower := by
  obtain ⟨hc, hrest⟩ := List.forall_mem_cons.1 h
  rw [capitalize, upper_of_ascii hc, flatMap_lower_of_ascii hrest, List.singleton_append]

private theorem ofNat_eq_iff {c : Char} (h : 0 < c.toNat) (code : Nat) : Char.ofNat code = c ↔ code = c.toNat := by
  constructor
  · rintro rfl
    -- Code points that are no scalar values count as zero, which this character is not.
    by_cases hv : code.isValidChar
    · rw [Char.ofNat, dif_pos hv]
      rfl
    · rw [Char.ofNat, dif_neg hv] at h
      exact absurd h (by decide)
  · rintro rfl
    exact Char.ofNat_toNat c

/-- A character that has no other case, and is none of a character that has one. -/
def Caseless (c : Char) : Prop :=
  0 < c.toNat ∧ CaseTable.untouched CaseTable.upperExpansions CaseTable.upperShifts c.toNat ∧
    CaseTable.untouched CaseTable.lowerExpansions CaseTable.lowerShifts c.toNat
  deriving Decidable

namespace Caseless
variable {c : Char}

private theorem count_ofNat (h : 0 < c.toNat) (codes : List Nat) : (codes.map Char.ofNat).count c = codes.count c.toNat := by
  rw [List.count, List.countP_map]
  refine List.countP_congr fun code _ => ?_
  simp [ofNat_eq_iff h]

private theorem count_toNat (h : 0 < c.toNat) (d : Char) : [d.toNat].count c.toNat = [d].count c := by
  rw [← count_ofNat h, List.map_singleton, Char.ofNat_toNat]

private theorem count_upper (h : Caseless c) (d : Char) : (upper d).count c = [d].count c := by
  rw [upper, count_ofNat h.1, CaseTable.count_convert h.2.1, count_toNat h.1]

private theorem count_lower (h : Caseless c) (d : Char) : (lower d).count c = [d].count c := by
  rw [lower, count_ofNat h.1, CaseTable.count_convert h.2.2, count_toNat h.1]

/-- A word has a character without case as often when it is capitalized. -/
theorem count_capitalize (h : Caseless c) (word : List Char) : (capitalize word).count c = word.count c := by
  have hlower (text : List Char) : (text.flatMap lower).count c = text.count c := by
    induction text with
    | nil => rfl
    | cons d text ih =>
      rw [List.flatMap_cons, List.count_append, h.count_lower, ih, ← List.count_append, List.singleton_append]
  cases word with
  | nil => rfl
  | cons d rest => rw [capitalize, List.count_append, h.count_upper, hlower, ← List.count_append, List.singleton_append]

/-- A capitalized word has the same characters without case. -/
theorem mem_capitalize_iff (h : Caseless c) (word : List Char) : c ∈ capitalize word ↔ c ∈ word := by
  rw [← List.count_pos_iff, h.count_capitalize, List.count_pos_iff]

end Caseless

theorem caseless_underscore : Caseless '_' := by
  decide +kernel

/-- No blank has case. -/
theorem caseless_of_isBlank {c : Char} (h : isBlank c) : Caseless c := by
  have htable : ∀ code ∈ List.range' 0x09 5 ++ List.range' 0x2000 11 ++
      [0x20, 0x85, 0xA0, 0x1680, 0x2028, 0x2029, 0x202F, 0x205F, 0x3000],
      0 < code ∧ CaseTable.untouched CaseTable.upperExpansions CaseTable.upperShifts code ∧
        CaseTable.untouched CaseTable.lowerExpansions CaseTable.lowerShifts code := by
    decide +kernel
  apply htable
  simp only [isBlank, Bool.or_eq_true, Bool.and_eq_true, decide_eq_true_iff] at h
  simp only [List.mem_append, List.mem_range'_1, List.mem_cons, List.not_mem_nil, or_false]
  omega

theorem caseless_lineFeed : Caseless '\n' := caseless_of_isBlank (by decide)

private theorem upper_ne_nil (c : Char) : upper c ≠ [] :=
  mt List.map_eq_nil_iff.1 (CaseTable.convert_ne_nil (by decide) _ c.toNat)

/-- Capitalizing leaves no word empty. -/
theorem capitalize_ne_nil {word : List Char} (h : word ≠ []) : capitalize word ≠ [] := by
  obtain ⟨c, rest, rfl⟩ := List.exists_cons_of_ne_nil h
  exact List.append_ne_nil_of_left_ne_nil (upper_ne_nil c) _

private theorem settles_lower : CaseTable.settles CaseTable.lowerExpansions CaseTable.lowerShifts := by
  decide +kernel

def IsLowercase (c : Char) : Prop := lower c = [c]
  deriving Decidable

private theorem isLowercase_of_mem_lower {c d : Char} (h : c ∈ lower d) : IsLowercase c := by
  obtain ⟨code, hcode, hc⟩ := List.mem_map.1 h
  rcases Nat.eq_zero_or_pos c.toNat with hzero | hpos
  · have hnull : c = '\x00' := by rw [← Char.ofNat_toNat c, hzero]
    rw [hnull]
    decide +kernel
  · obtain rfl := (ofNat_eq_iff hpos code).1 hc
    rw [IsLowercase, lower, CaseTable.convert_of_mem_convert settles_lower hcode, List.map_singleton, Char.ofNat_toNat]

private theorem lowercaseBehind_eq_self (before : List Char) {text : List Char} (h : ∀ c ∈ text, IsLowercase c) :
    lowercaseBehind before text = text := by
  induction text generalizing before with
  | nil => rfl
  | cons c text ih =>
    rw [List.forall_mem_cons] at h
    have hsigma : c ≠ 'Σ' := by
      rintro rfl
      exact absurd h.1 (by decide +kernel)
    rw [lowercaseBehind, if_neg hsigma, h.1, ih _ h.2]
    rfl

/-- A text of such characters is its own lower case. -/
theorem lowercase_eq_self {text : List Char} (h : ∀ c ∈ text, IsLowercase c) : lowercase text = text :=
  lowercaseBehind_eq_self [] h

private theorem isLowercase_of_mem_lowercaseBehind {before text : List Char} {c : Char} (h : c ∈ lowercaseBehind before text) :
    IsLowercase c := by
  induction text generalizing before with
  | nil => cases h
  | cons d text ih =>
    rw [lowercaseBehind, List.mem_append] at h
    rcases h with hd | ht
    · split at hd
      · -- Both small sigmas are their own lower case.
        split at hd
        · rw [List.mem_singleton.1 hd]
          decide +kernel
        · rw [List.mem_singleton.1 hd]
          decide +kernel
      · exact isLowercase_of_mem_lower hd
    · exact ih ht

/-- The lower case of a text has such characters only. -/
theorem isLowercase_of_mem_lowercase {text : List Char} {c : Char} (h : c ∈ lowercase text) : IsLowercase c :=
  isLowercase_of_mem_lowercaseBehind h

end TypeSketch
