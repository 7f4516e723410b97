import Mathlib.Algebra.Order.Field.Power
import Mathlib.Data.Nat.Digits.Defs
import Mathlib.Data.Rat.Cast.Order
import Mathlib.Tactic.FieldSimp
import Mathlib.Tactic.NormNum
import Mathlib.Tactic.Ring
import TypeSketch.Number.Decimal
import TypeSketch.Proofs.Json.Numeral

/-! The notation of numbers and the rational number that a text in it denotes. Every such text is read as a decimal
with that value, whole numbers are in it, and so are the numerals of JSON as they are kept. Beside these only the names of
infinity and of not-a-number are read. -/
namespace TypeSketch.Decimal

def natural (digits : List Char) : ℕ := Nat.ofDigits 10 (digits.reverse.map fun c => c.toNat - '0'.toNat)

/-- A sign, if there is one, and the factor that it is. -/
inductive Sign : List Char → ℤ → Prop
  | absent : Sign [] 1
  | plus : Sign ['+'] 1
  | minus : Sign ['-'] (-1)

/-- Digits with at most one point among or around them, and what they denote. -/
inductive Mantissa : List Char → ℚ → Prop
  | whole {digits : List Char} (h : ∀ c ∈ digits, c.isDigit) (some : digits ≠ []) : Mantissa digits (natural digits)
  | pointed {whole fraction : List Char} (wholes : ∀ c ∈ whole, c.isDigit) (fractions : ∀ c ∈ fraction, c.isDigit)
      (some : ¬ (whole = [] ∧ fraction = [])) :
      Mantissa (whole ++ '.' :: fraction) (natural whole + natural fraction / 10 ^ fraction.length)

/-- The power of ten that an exponent denotes, if there is one. -/
inductive Power : List Char → ℤ → Prop
  | absent : Power [] 0
  | present {mark : Char} {sign digits : List Char} {s : ℤ} (marks : mark = 'e' ∨ mark = 'E') (signs : Sign sign s)
      (h : ∀ c ∈ digits, c.isDigit) (some : digits ≠ []) : Power (mark :: sign ++ digits) (s * natural digits)

/-- The text of a number, and the number. -/
inductive Denotes : List Char → ℚ → Prop
  | mk {sign mantissa power : List Char} {s p : ℤ} {m : ℚ} (signs : Sign sign s) (mantissas : Mantissa mantissa m)
      (powers : Power power p) : Denotes (sign ++ mantissa ++ power) (s * m * 10 ^ p)

def value (decimal : Decimal) : ℚ :=
  (if decimal.negative then -1 else 1) * (decimal.significand * 10 ^ decimal.exponent)

private theorem digitsValue_eq (digits : List Char) : digitsValue digits = natural digits := by
  have hfold (value : ℕ) : digits.foldl (fun value c => 10 * value + (c.toNat - '0'.toNat)) value =
      10 ^ digits.length * value + natural digits := by
    induction digits generalizing value with
    | nil => simp [natural]
    | cons c digits ih =>
      rw [List.foldl_cons, ih]
      simp only [natural, List.reverse_cons, List.map_append, List.map_singleton, Nat.ofDigits_append,
        Nat.ofDigits_singleton, List.length_map, List.length_reverse, List.length_cons]
      ring
  simpa [digitsValue] using hfold 0

private theorem natural_append (front back : List Char) :
    natural (front ++ back) = natural front * 10 ^ back.length + natural back := by
  simp only [natural, List.reverse_append, List.map_append, Nat.ofDigits_append, List.length_map, List.length_reverse]
  ring

private theorem takeWhile_digits {digits rest : List Char} (h : ∀ c ∈ digits, c.isDigit)
    (hr : ∀ c ∈ rest.head?, c.isDigit = false) : (digits ++ rest).takeWhile Char.isDigit = digits := by
  rw [List.takeWhile_append_of_pos h]
  cases rest with
  | nil => simp
  | cons c rest => rw [List.takeWhile_cons_of_neg (by simp [hr c rfl]), List.append_nil]

private theorem dropWhile_digits {digits rest : List Char} (h : ∀ c ∈ digits, c.isDigit)
    (hr : ∀ c ∈ rest.head?, c.isDigit = false) : (digits ++ rest).dropWhile Char.isDigit = rest := by
  rw [List.dropWhile_append_of_pos h]
  cases rest with
  | nil => rfl
  | cons c rest => rw [List.dropWhile_cons_of_neg (by simp [hr c rfl])]

private theorem splitSign_sign {sign rest : List Char} {s : ℤ} (h : Sign sign s)
    (hr : ∀ c ∈ rest.head?, c ≠ '-' ∧ c ≠ '+') : splitSign (sign ++ rest) = (decide (s = -1), rest) := by
  cases h with
  | plus | minus => rfl
  | absent =>
    cases rest with
    | nil => rfl
    | cons c rest =>
      obtain ⟨hm, hp⟩ := hr c rfl
      rw [List.nil_append]
      unfold splitSign
      split
      · rename_i he
        exact absurd (List.cons.inj he).1 hm
      · rename_i he
        exact absurd (List.cons.inj he).1 hp
      · rfl

private theorem head_of_digits {digits : List Char} (h : ∀ c ∈ digits, c.isDigit) :
    ∀ c ∈ digits.head?, c.isDigit := fun c hc => h c (List.mem_of_mem_head? hc)

private theorem natural?_digits {digits : List Char} (h : ∀ c ∈ digits, c.isDigit) (hn : digits ≠ []) :
    natural? digits = some (natural digits) := by
  rw [natural?, if_pos ⟨hn, List.all_eq_true.2 h⟩, digitsValue_eq]

private theorem integer?_signed {sign digits : List Char} {s : ℤ} (hs : Sign sign s) (h : ∀ c ∈ digits, c.isDigit)
    (hn : digits ≠ []) : integer? (sign ++ digits) = some (s * natural digits) := by
  have hd (c : Char) (hc : c ∈ digits.head?) : c ≠ '-' ∧ c ≠ '+' :=
    ⟨Numeral.digit_ne (head_of_digits h c hc) rfl, Numeral.digit_ne (head_of_digits h c hc) rfl⟩
  rw [integer?, splitSign_sign hs hd]
  simp only [natural?_digits h hn]
  cases hs <;> simp

private theorem exponent?_power {text : List Char} {p : ℤ} (h : Power text p) : exponent? text = some p := by
  cases h with
  | absent => rfl
  | present marks signs digits some =>
    rw [List.cons_append, exponent?, if_pos marks, integer?_signed signs digits some]

private theorem head_of_power {text : List Char} {p : ℤ} (h : Power text p) :
    ∀ c ∈ text.head?, c = 'e' ∨ c = 'E' := by
  cases h with
  | absent => simp
  | present marks _ _ _ => simpa using marks

private theorem head_of_mantissa {text : List Char} {m : ℚ} (h : Mantissa text m) :
    ∃ c rest, text = c :: rest ∧ (c.isDigit ∨ c = '.') := by
  cases h with
  | whole digits some =>
    obtain ⟨c, rest, rfl⟩ := List.exists_cons_of_ne_nil some
    exact ⟨c, rest, rfl, .inl (digits c List.mem_cons_self)⟩
  | @pointed whole fraction wholes fractions some =>
    cases whole with
    | nil => exact ⟨_, _, rfl, .inr rfl⟩
    | cons c rest => exact ⟨c, _, rfl, .inl (wholes c List.mem_cons_self)⟩

private theorem finite?_of_mantissa {mantissa power : List Char} {m : ℚ} {p : ℤ} (hm : Mantissa mantissa m)
    (hp : Power power p) (negative : Bool) :
    ∃ significand exponent, finite? negative (mantissa ++ power) = some ⟨negative, significand, exponent⟩ ∧
      (significand * 10 ^ exponent : ℚ) = m * 10 ^ p := by
  have hmark (c : Char) (hc : c ∈ power.head?) : c.isDigit = false := by
    rcases head_of_power hp c hc with rfl | rfl <;> rfl
  cases hm with
  | whole digits some =>
    refine ⟨natural mantissa, p, ?_, rfl⟩
    have hpoint : splitFraction power = ([], power) := by
      cases power with
      | nil => rfl
      | cons c power =>
        have hc := head_of_power hp c rfl
        unfold splitFraction
        split
        · rename_i he
          cases he
          simp at hc
        · rfl
    rw [finite?, takeWhile_digits digits hmark, dropWhile_digits digits hmark, hpoint]
    simp [some, exponent?_power hp, digitsValue_eq]
  | @pointed whole fraction wholes fractions some =>
    refine ⟨natural (whole ++ fraction), p - fraction.length, ?_, ?_⟩
    · have hpoint : ∀ c ∈ ('.' :: fraction ++ power).head?, c.isDigit = false := by simp
      rw [finite?, List.append_assoc, takeWhile_digits wholes hpoint, dropWhile_digits wholes hpoint]
      simp only [List.cons_append, splitFraction, takeWhile_digits fractions hmark, dropWhile_digits fractions hmark]
      simp [some, exponent?_power hp, digitsValue_eq]
    · rw [natural_append, zpow_sub₀ (by norm_num), zpow_natCast]
      push_cast
      field_simp

private theorem toLower_of_digit {c : Char} (h : c.isDigit ∨ c = '.') : c.toLower ≠ 'i' ∧ c.toLower ≠ 'n' := by
  rcases h with h | rfl
  · have hl : c.toLower = c := by
      simp only [Char.isDigit, Bool.and_eq_true, decide_eq_true_eq] at h
      unfold Char.toLower
      rw [dif_neg]
      rintro ⟨ha, -⟩
      exact absurd (UInt32.le_trans ha h.2) (by decide)
    rw [hl]
    exact ⟨Numeral.digit_ne h rfl, Numeral.digit_ne h rfl⟩
  · decide

private theorem meaning?_of_body {text body : List Char} {negative : Bool} (hs : splitSign text = (negative, body))
    {c : Char} {rest : List Char} (hb : body = c :: rest) (hc : c.isDigit ∨ c = '.') :
    meaning? text = (finite? negative body).map .finite := by
  -- No name begins with a digit or a point.
  have hname (name : String) (first : Char) (h : name.toList.head? = some first)
      (hf : c.toLower ≠ first) : String.ofList (body.map Char.toLower) ≠ name := by
    rintro rfl
    rw [hb, String.toList_ofList, List.map_cons, List.head?_cons, Option.some.injEq] at h
    exact hf h
  obtain ⟨hi, hn⟩ := toLower_of_digit hc
  rw [meaning?, hs]
  simp only
  split
  · rename_i he
    exact absurd he (hname _ 'i' rfl hi)
  · rename_i he
    exact absurd he (hname _ 'i' rfl hi)
  · rename_i he
    exact absurd he (hname _ 'n' rfl hn)
  · rfl

/-- A text in the notation is read as a decimal with the value that it denotes. -/
theorem meaning?_of_denotes {text : List Char} {q : ℚ} (h : Denotes text q) :
    ∃ decimal, meaning? text = some (.finite decimal) ∧ decimal.value = q := by
  obtain ⟨signs, mantissas, powers⟩ := h
  rename_i sign mantissa power s p m
  obtain ⟨c, rest, hm, hc⟩ := head_of_mantissa mantissas
  have hbody : mantissa ++ power = c :: (rest ++ power) := by rw [hm, List.cons_append]
  have hsign : ∀ d ∈ (mantissa ++ power).head?, d ≠ '-' ∧ d ≠ '+' := by
    rw [hbody]
    rintro d hd
    cases hd
    rcases hc with hc | rfl
    · exact ⟨Numeral.digit_ne hc rfl, Numeral.digit_ne hc rfl⟩
    · decide
  obtain ⟨significand, exponent, hf, hv⟩ := finite?_of_mantissa mantissas powers (decide (s = -1))
  refine ⟨⟨decide (s = -1), significand, exponent⟩, ?_, ?_⟩
  · rw [List.append_assoc, meaning?_of_body (splitSign_sign signs hsign) hbody hc, hf]
    rfl
  · rw [value, hv, mul_assoc]
    cases signs <;> simp

private theorem sign_of_splitSign {text digits : List Char} {negative : Bool}
    (h : splitSign text = (negative, digits)) : ∃ sign, Sign sign (if negative then -1 else 1) ∧ text = sign ++ digits := by
  unfold splitSign at h
  split at h
  · cases h
    exact ⟨['-'], .minus, rfl⟩
  · cases h
    exact ⟨['+'], .plus, rfl⟩
  · cases h
    exact ⟨[], .absent, rfl⟩

private theorem signed_of_integer? {text : List Char} {z : ℤ} (h : integer? text = some z) :
    ∃ sign digits, ∃ s : ℤ, Sign sign s ∧ (∀ c ∈ digits, c.isDigit) ∧ digits ≠ [] ∧ text = sign ++ digits ∧
      z = s * natural digits := by
  obtain ⟨negative, digits, hs⟩ : ∃ negative digits, splitSign text = (negative, digits) := ⟨_, _, rfl⟩
  rw [integer?, hs] at h
  obtain ⟨n, hn, hz⟩ := Option.map_eq_some_iff.1 h
  obtain ⟨sign, signs, rfl⟩ := sign_of_splitSign hs
  unfold natural? at hn
  split at hn
  · rename_i hd
    cases hn
    rw [digitsValue_eq] at hz
    refine ⟨sign, digits, _, signs, List.all_eq_true.1 hd.2, hd.1, rfl, ?_⟩
    rw [← hz]
    cases negative <;> simp
  · cases hn

/-- A whole number is in the notation. -/
theorem denotes_of_integer? {text : List Char} {z : ℤ} (h : integer? text = some z) : Denotes text z := by
  obtain ⟨sign, digits, s, signs, hd, hn, rfl, rfl⟩ := signed_of_integer? h
  simpa using Denotes.mk signs (.whole hd hn) .absent

private theorem mantissa_of_written {whole fraction : List Char} (hw : Numeral.Whole whole)
    (hf : Numeral.Fraction fraction) : ∃ m, Mantissa (whole ++ fraction) m := by
  have hd : whole ≠ [] ∧ ∀ c ∈ whole, c.isDigit := by
    cases hw with
    | zero => exact ⟨List.cons_ne_nil _ _, List.forall_mem_singleton.2 rfl⟩
    | digits digits _ => exact digits
  cases hf with
  | absent => exact ⟨_, by rw [List.append_nil]; exact .whole hd.2 hd.1⟩
  | present digits => exact ⟨_, .pointed hd.2 digits.2 fun hn => hd.1 hn.1⟩

private theorem power_of_written {exponent kept : List Char} (h : Numeral.Exponent exponent kept) :
    ∃ p, Power kept p := by
  cases h with
  | absent => exact ⟨0, .absent⟩
  | unsigned _ digits => exact ⟨_, .present (.inl rfl) .plus digits.2 digits.1⟩
  | signed _ signs digits =>
    rcases signs with rfl | rfl
    · exact ⟨_, .present (.inl rfl) .plus digits.2 digits.1⟩
    · exact ⟨_, .present (.inl rfl) .minus digits.2 digits.1⟩

/-- The numerals of JSON are in the notation, in the form that they are kept in. -/
theorem denotes_of_written {text kept : List Char} (h : Numeral.Written text kept) : ∃ q, Denotes kept q := by
  obtain @⟨minus, whole, fraction, exponent, kept, signs, wholes, fractions, exponents⟩ := h
  obtain ⟨m, hm⟩ := mantissa_of_written wholes fractions
  obtain ⟨p, hp⟩ := power_of_written exponents
  rw [List.append_assoc minus]
  rcases signs with rfl | rfl
  · exact ⟨_, .mk .absent hm hp⟩
  · exact ⟨_, .mk .minus hm hp⟩

end TypeSketch.Decimal
