import Mathlib.Data.Int.Log
import TypeSketch.Number.Kind
import TypeSketch.Proofs.Number.Notation
import TypeSketch.Proofs.Number.Rounding

/-! Whether a text is guessed as a whole number depends only on the number that it denotes, and not on its sign.
The closed form says for which numbers; the shortcut for whole numbers of 64 bits agrees with it. -/
namespace TypeSketch.NumberKind
open Decimal Binary64

private theorem abs_value (decimal : Decimal) : |decimal.value| = decimal.significand * 10 ^ decimal.exponent := by
  have hpos : (0 : ℚ) ≤ decimal.significand * 10 ^ decimal.exponent := by positivity
  rw [value]
  split
  · rw [neg_one_mul, abs_neg, abs_of_nonneg hpos]
  · rw [one_mul, abs_of_nonneg hpos]

private theorem ofMeaning_eq_int_iff (decimal : Decimal) : ofMeaning (.finite decimal) = .int ↔
    ∃ x, ofDecimal? decimal.significand decimal.exponent = some x ∧ x.isWhole := by
  cases hx : ofDecimal? decimal.significand decimal.exponent with
  | none => simp [ofMeaning, hx]
  | some x => cases hw : x.isWhole <;> simp [ofMeaning, hx, hw]

private theorem ofMeaning_zero {decimal : Decimal} (h : decimal.value = 0) : ofMeaning (.finite decimal) = .int := by
  have hz := abs_value decimal
  rw [h, abs_zero, eq_comm, mul_eq_zero, or_iff_left (by positivity), Nat.cast_eq_zero] at hz
  rw [ofMeaning_eq_int_iff, ofDecimal?, if_pos hz]
  exact ⟨_, rfl, rfl⟩

private theorem ofMeaning_binade {decimal : Decimal} {k : ℤ} (h : InBinade k |decimal.value|) :
    ofMeaning (.finite decimal) = .int ↔ NearWhole k |decimal.value| := by
  rw [abs_value] at h ⊢
  rw [ofMeaning_eq_int_iff, ofDecimal?_isWhole_iff h]

/-- A text denotes one number only. -/
theorem denotes_unique {text : List Char} {q r : ℚ} (hq : Denotes text q) (hr : Denotes text r) : q = r := by
  obtain ⟨decimal, hd, rfl⟩ := meaning?_of_denotes hq
  obtain ⟨other, ho, rfl⟩ := meaning?_of_denotes hr
  rw [hd] at ho
  cases ho
  rfl

private theorem exists_inBinade {q : ℚ} (h : 0 < q) : ∃ k, InBinade k q :=
  ⟨Int.log 2 q, Int.zpow_log_le_self one_lt_two h, Int.lt_zpow_succ_log_self one_lt_two q⟩

private theorem slow_zero {text : List Char} (h : Denotes text 0) : (meaning? text).map ofMeaning = some .int := by
  obtain ⟨decimal, hd, hv⟩ := meaning?_of_denotes h
  rw [hd, Option.map_some, ofMeaning_zero hv]

private theorem slow_binade {text : List Char} {q : ℚ} (h : Denotes text q) {k : ℤ} (hk : InBinade k |q|) :
    ∃ kind, (meaning? text).map ofMeaning = some kind ∧ (kind = .int ↔ NearWhole k |q|) := by
  obtain ⟨decimal, hd, rfl⟩ := meaning?_of_denotes h
  exact ⟨_, by rw [hd, Option.map_some], ofMeaning_binade hk⟩

private theorem nearWhole_of_integer {z : ℤ} (h : |(z : ℚ)| < 2 ^ 1024 - 2 ^ 970) (k : ℤ) : NearWhole k |(z : ℚ)| := by
  refine ⟨h, .inr ⟨|z|, ?_⟩⟩
  rw [Int.cast_abs, sub_self, abs_zero]
  positivity

private theorem slow_integer {text : List Char} {z : ℤ} (h : Denotes text z) (hz : |(z : ℚ)| < 2 ^ 1024 - 2 ^ 970) :
    (meaning? text).map ofMeaning = some .int := by
  rcases eq_or_ne z 0 with rfl | hn
  · exact slow_zero (by simpa using h)
  · obtain ⟨k, hk⟩ := exists_inBinade (q := |(z : ℚ)|) (by positivity)
    obtain ⟨kind, hs, hi⟩ := slow_binade h hk
    rw [hs, hi.2 (nearWhole_of_integer hz k)]

private theorem slow_word {text : List Char} (h : isWord text) : (meaning? text).map ofMeaning = some .int := by
  unfold isWord at h
  cases hz : integer? text with
  | none =>
    rw [hz] at h
    cases h
  | some z =>
    rw [hz] at h
    simp only [Bool.and_eq_true, decide_eq_true_eq] at h
    refine slow_integer (denotes_of_integer? hz) (lt_of_le_of_lt ?_ pow_lt_overflow)
    have habs : |z| ≤ 2 ^ 64 := abs_le.2 ⟨by omega, h.2.le⟩
    exact_mod_cast habs

/-- So the shortcut changes nothing. -/
theorem ofText?_eq_slow (text : List Char) : ofText? (String.ofList text) = (meaning? text).map ofMeaning := by
  rw [ofText?, String.toList_ofList]
  split
  · rename_i h
    exact (slow_word h).symm
  · rfl

private theorem near_abs_iff (q δ : ℚ) : (∃ z : ℤ, |(|q|) - z| ≤ δ) ↔ |q - round q| ≤ δ := by
  have hround : |q - round q| ≤ δ ↔ ∃ z : ℤ, |q - z| ≤ δ :=
    ⟨fun h => ⟨round q, h⟩, fun ⟨z, h⟩ => (round_le q z).trans h⟩
  rw [hround]
  rcases abs_choice q with h | h
  · rw [h]
  · rw [h]
    have hneg (z : ℤ) : |-q - (-z : ℤ)| = |q - z| := by rw [Int.cast_neg, ← neg_sub', abs_neg]
    exact ⟨fun ⟨z, hz⟩ => ⟨-z, by rwa [← hneg, neg_neg]⟩, fun ⟨z, hz⟩ => ⟨-z, by rwa [hneg]⟩⟩

private theorem ofText?_of_binade {text : List Char} {q : ℚ} (h : Denotes text q) {k : ℤ} (hk : InBinade k |q|) :
    ofText? (String.ofList text) = some
      (if |q| < 2 ^ 1024 - 2 ^ 970 ∧ (|q| ≤ 2 ^ (-1075 : ℤ) ∨ |q - round q| ≤ 2 ^ (k - 53)) then .int else .float) := by
  obtain ⟨kind, hs, hi⟩ := slow_binade h hk
  rw [NearWhole, near_abs_iff] at hi
  rw [ofText?_eq_slow, hs]
  split
  · rename_i hc
    rw [hi.2 hc]
  · rename_i hc
    cases kind with
    | int => exact absurd (hi.1 rfl) hc
    | float => rfl

private theorem ofText?_congr {text other : List Char} {q r : ℚ} (h : Denotes text q) (ho : Denotes other r)
    (ha : |r| = |q|) : ofText? (String.ofList text) = ofText? (String.ofList other) := by
  rw [ofText?_eq_slow, ofText?_eq_slow]
  rcases eq_or_ne q 0 with rfl | hq
  · rw [abs_zero, abs_eq_zero] at ha
    rw [slow_zero h, slow_zero (ha ▸ ho)]
  · obtain ⟨k, hk⟩ := exists_inBinade (abs_pos.2 hq)
    obtain ⟨kind, hs, hi⟩ := slow_binade h hk
    rw [← ha] at hk
    obtain ⟨kind', hs', hi'⟩ := slow_binade ho hk
    rw [hs, hs']
    rw [ha] at hi'
    cases kind <;> cases kind' <;> simp_all

/-- The kind of a number's text in closed form. With `2 ^ k` the greatest power of two not above its value, a
number is whole exactly if it does not overflow and is at most half of the least double, or is at most
`2 ^ (k - 53)` away from an integer; zero is whole. So texts of one value are of one kind, a sign changes nothing,
and integers below the threshold are whole; the shortcut for 64 bits agrees with the double, and every numeral
of JSON is such a text in the form that it is kept in. -/
theorem ofText?_closedForm :
    (∀ text q, Denotes text q →
      (q = 0 → ofText? (String.ofList text) = some .int) ∧
      (q ≠ 0 → ∃! k : ℤ, 2 ^ k ≤ |q| ∧ |q| < 2 ^ (k + 1)) ∧
      ∀ k : ℤ, 2 ^ k ≤ |q| → |q| < 2 ^ (k + 1) → ofText? (String.ofList text) = some
        (if |q| < 2 ^ 1024 - 2 ^ 970 ∧ (|q| ≤ 2 ^ (-1075 : ℤ) ∨ |q - round q| ≤ 2 ^ (k - 53)) then .int
        else .float)) ∧
    (∀ text other q, Denotes text q → Denotes other q ∨ Denotes other (-q) →
      ofText? (String.ofList text) = ofText? (String.ofList other)) ∧
    (∀ text (z : ℤ), Denotes text z → |(z : ℚ)| < 2 ^ 1024 - 2 ^ 970 → ofText? (String.ofList text) = some .int) ∧
    (∀ text, isWord text → (meaning? text).map ofMeaning = some .int) ∧
    (∀ text kept, Numeral.Written text kept → ∃ q, Denotes kept q) := by
  refine ⟨fun text q h => ⟨?_, fun hq => ?_, fun k hl hh => ofText?_of_binade h ⟨hl, hh⟩⟩, fun text other q h ho => ?_,
    fun text z h hz => ?_, fun text => slow_word, fun text kept => denotes_of_written⟩
  · rintro rfl
    rw [ofText?_eq_slow, slow_zero h]
  · obtain ⟨k, hk⟩ := exists_inBinade (abs_pos.2 hq)
    exact ⟨k, hk, fun l hl => InBinade.unique hl hk⟩
  · rcases ho with ho | ho
    · exact ofText?_congr h ho rfl
    · exact ofText?_congr h ho (abs_neg q)
  · rw [ofText?_eq_slow, slow_integer h hz]

/-- Zero, and one: as itself, with a sign, as a word and as a numeral of JSON. -/
theorem ofText?_closedForm_one :
    (Denotes ['0'] 0 ∧ ofText? (String.ofList ['0']) = some .int) ∧
    (Denotes ['1'] 1 ∧ (∃! k : ℤ, 2 ^ k ≤ |(1 : ℚ)| ∧ |(1 : ℚ)| < 2 ^ (k + 1)) ∧
      ofText? (String.ofList ['1']) = some
        (if |(1 : ℚ)| < 2 ^ 1024 - 2 ^ 970 ∧
          (|(1 : ℚ)| ≤ 2 ^ (-1075 : ℤ) ∨ |(1 : ℚ) - round (1 : ℚ)| ≤ 2 ^ ((0 : ℤ) - 53)) then .int else .float)) ∧
    (Denotes ['-', '1'] (-1) ∧ ofText? (String.ofList ['1']) = ofText? (String.ofList ['-', '1'])) ∧
    (|((1 : ℤ) : ℚ)| < 2 ^ 1024 - 2 ^ 970 ∧ ofText? (String.ofList ['1']) = some .int) ∧
    (isWord ['1'] ∧ (meaning? ['1']).map ofMeaning = some .int) ∧
    (Numeral.Written ['1'] ['1'] ∧ ∃ q, Denotes ['1'] q) := by
  obtain ⟨hform, hsign, hinteger, hword, hwritten⟩ := ofText?_closedForm
  have hzero : Denotes ['0'] 0 := by simpa using @denotes_of_integer? ['0'] 0 rfl
  have hone : Denotes ['1'] 1 := by simpa using @denotes_of_integer? ['1'] 1 rfl
  have hminus : Denotes ['-', '1'] (-1) := by simpa using @denotes_of_integer? ['-', '1'] (-1) rfl
  have hbelow : |((1 : ℤ) : ℚ)| < 2 ^ 1024 - 2 ^ 970 := by
    refine lt_trans ?_ pow_lt_overflow
    norm_num
  have hbinade := (hform _ _ hone).2.2 0 (by norm_num) (by norm_num)
  have hone64 : isWord ['1'] := by decide
  have hwhole : Numeral.Whole ['1'] := .digits ⟨List.cons_ne_nil _ _, List.forall_mem_singleton.2 rfl⟩ (by decide)
  have hnumeral : Numeral.Written ['1'] ['1'] := .mk (.inl rfl) hwhole .absent .absent
  exact ⟨⟨hzero, (hform _ _ hzero).1 rfl⟩,
    ⟨hone, (hform _ _ hone).2.1 one_ne_zero, hbinade⟩,
    ⟨hminus, hsign _ _ _ hone (.inr hminus)⟩,
    ⟨hbelow, hinteger _ 1 (by simpa using hone) hbelow⟩,
    ⟨hone64, hword _ hone64⟩,
    hnumeral, hwritten _ _ hnumeral⟩

end TypeSketch.NumberKind
