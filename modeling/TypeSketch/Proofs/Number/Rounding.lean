import Mathlib.Algebra.Order.Field.Power
import Mathlib.Algebra.Order.Round
import Mathlib.Data.Rat.Cast.Order
import Mathlib.Data.Rat.Floor
import Mathlib.Tactic.FieldSimp
import Mathlib.Tactic.Linarith
import Mathlib.Tactic.NormNum
import Mathlib.Tactic.Positivity
import Mathlib.Tactic.Ring
import TypeSketch.Number.Binary64

/-! Where the double nearest to a fraction lies, said in rational numbers: it is at most half a unit away, a tie
goes to an even significand, and the unit is the power of two 52 below the fraction, but not below the least one. -/
namespace TypeSketch.Binary64

private theorem div_eq_floor_add (n : ℕ) {d : ℕ} (hd : 0 < d) :
    (n / d : ℚ) = (n / d : ℕ) + (n % d : ℕ) / d := by
  have hd' : (d : ℚ) ≠ 0 := by positivity
  have hn : (n : ℚ) = d * (n / d : ℕ) + (n % d : ℕ) := by exact_mod_cast (Nat.div_add_mod n d).symm
  field_simp
  linarith

private theorem roundHalfEven_spec (n : ℕ) {d : ℕ} (hd : 0 < d) :
    |(n / d : ℚ) - roundHalfEven n d| < 1 / 2 ∨
      |(n / d : ℚ) - roundHalfEven n d| = 1 / 2 ∧ Even (roundHalfEven n d) := by
  have hd' : (0 : ℚ) < d := by positivity
  rw [div_eq_floor_add n hd]
  have hr : (0 : ℚ) ≤ (n % d : ℕ) / d := by positivity
  unfold roundHalfEven
  simp only
  split
  · rename_i hlt
    left
    have hhalf : ((n % d : ℕ) / d : ℚ) < 1 / 2 := by
      rw [div_lt_div_iff₀ hd' two_pos]
      exact_mod_cast (by omega : n % d * 2 < 1 * d)
    rw [add_sub_cancel_left, abs_of_nonneg hr]
    exact hhalf
  split
  · rename_i hgt
    left
    have hhalf : (1 / 2 : ℚ) < (n % d : ℕ) / d := by
      rw [div_lt_div_iff₀ two_pos hd']
      exact_mod_cast (by omega : 1 * d < n % d * 2)
    have hone : ((n % d : ℕ) / d : ℚ) < 1 := by
      rw [div_lt_one hd']
      exact_mod_cast Nat.mod_lt n hd
    rw [abs_lt]
    push_cast
    constructor <;> linarith
  · right
    have hhalf : ((n % d : ℕ) / d : ℚ) = 1 / 2 := by
      rw [div_eq_div_iff hd'.ne' two_ne_zero]
      exact_mod_cast (by omega : n % d * 2 = 1 * d)
    rw [hhalf]
    rcases Nat.mod_two_eq_zero_or_one (n / d) with h | h
    · rw [h]
      refine ⟨by norm_num, Nat.even_iff.2 h⟩
    · rw [h]
      refine ⟨by push_cast; norm_num [abs_of_nonneg], Nat.even_iff.2 (by omega)⟩

/-- The rounded fraction is at most a half away. -/
theorem abs_sub_roundHalfEven_le (n : ℕ) {d : ℕ} (hd : 0 < d) : |(n / d : ℚ) - roundHalfEven n d| ≤ 1 / 2 := by
  rcases roundHalfEven_spec n hd with h | ⟨h, -⟩
  · exact h.le
  · exact h.le

/-- An even integer that is at most a half away is the one that is rounded to. -/
theorem roundHalfEven_eq_of_even {n d m : ℕ} (hd : 0 < d) (hm : Even m) (h : |(n / d : ℚ) - m| ≤ 1 / 2) :
    roundHalfEven n d = m := by
  obtain ⟨hlow, hhigh⟩ := abs_le.1 h
  rcases roundHalfEven_spec n hd with hs | ⟨hs, he⟩
  · obtain ⟨hl, hh⟩ := abs_lt.1 hs
    have hup : (roundHalfEven n d : ℚ) < m + 1 := by linarith
    have hdown : (m : ℚ) < roundHalfEven n d + 1 := by linarith
    norm_cast at hup hdown
    omega
  · obtain ⟨hl, hh⟩ := abs_le.1 hs.le
    have hup : (roundHalfEven n d : ℚ) ≤ m + 1 := by linarith
    have hdown : (m : ℚ) ≤ roundHalfEven n d + 1 := by linarith
    norm_cast at hup hdown
    -- neighbours are not both even
    obtain ⟨i, hi⟩ := hm
    obtain ⟨j, hj⟩ := he
    omega

/-- An even integer is not above the rounded fraction exactly if it is at most a half above the fraction. -/
theorem even_le_roundHalfEven_iff {n d m : ℕ} (hd : 0 < d) (hm : Even m) :
    m ≤ roundHalfEven n d ↔ (m : ℚ) - 1 / 2 ≤ n / d := by
  obtain ⟨hlow, hhigh⟩ := abs_le.1 (abs_sub_roundHalfEven_le n hd)
  constructor
  · intro h
    have h' : (m : ℚ) ≤ roundHalfEven n d := by exact_mod_cast h
    linarith
  · intro h
    rcases le_total (n / d : ℚ) (m + 1 / 2) with hc | hc
    · exact (roundHalfEven_eq_of_even hd hm (abs_le.2 ⟨by linarith, by linarith⟩)).ge
    · have h' : (m : ℚ) ≤ roundHalfEven n d := by linarith
      exact_mod_cast h'

/-- The rounded fraction is not above an even integer exactly if the fraction is at most a half above that. -/
theorem roundHalfEven_le_even_iff {n d m : ℕ} (hd : 0 < d) (hm : Even m) :
    roundHalfEven n d ≤ m ↔ (n / d : ℚ) ≤ m + 1 / 2 := by
  obtain ⟨hlow, hhigh⟩ := abs_le.1 (abs_sub_roundHalfEven_le n hd)
  constructor
  · intro h
    have h' : (roundHalfEven n d : ℚ) ≤ m := by exact_mod_cast h
    linarith
  · intro h
    rcases le_total ((m : ℚ) - 1 / 2) (n / d) with hc | hc
    · exact (roundHalfEven_eq_of_even hd hm (abs_le.2 ⟨by linarith, by linarith⟩)).le
    · have h' : (roundHalfEven n d : ℚ) ≤ m := by linarith
      exact_mod_cast h'

private theorem shiftLeft_eq_mul (n m : ℕ) : n <<< m = n * 2 ^ m := Nat.shiftLeft_eq n m

private theorem cast_shiftLeft (n m : ℕ) : ((n <<< m : ℕ) : ℚ) = n * 2 ^ m := by
  rw [shiftLeft_eq_mul, Nat.cast_mul, Nat.cast_pow, Nat.cast_ofNat]

private theorem scale_pos (n : ℕ) {d : ℕ} (hd : 0 < d) (e : ℤ) : 0 < (scale n d e).2 := by
  unfold scale
  split
  · simp only [shiftLeft_eq_mul]
    positivity
  · exact hd

/-- Scaling divides by a power of two. -/
theorem scale_div (n d : ℕ) (e : ℤ) : ((scale n d e).1 / (scale n d e).2 : ℚ) = n / d / 2 ^ e := by
  unfold scale
  split
  · rename_i he
    obtain ⟨m, rfl⟩ := Int.eq_ofNat_of_zero_le he
    simp only [Int.toNat_natCast, cast_shiftLeft, zpow_natCast, div_div]
  · rename_i he
    obtain ⟨m, rfl⟩ : ∃ m : ℕ, e = -m := ⟨(-e).toNat, by omega⟩
    simp only [neg_neg, Int.toNat_natCast, cast_shiftLeft, zpow_neg, zpow_natCast]
    rw [div_inv_eq_mul, mul_div_right_comm]

private theorem log2_bounds {n : ℕ} (hn : 0 < n) : (2 : ℚ) ^ (n.log2 : ℤ) ≤ n ∧ (n : ℚ) < 2 ^ ((n.log2 : ℤ) + 1) := by
  constructor
  · rw [zpow_natCast]
    exact_mod_cast Nat.log2_self_le hn.ne'
  · rw [← Nat.cast_succ, zpow_natCast]
    exact_mod_cast Nat.lt_log2_self

/-- The magnitude is the exponent of the greatest power of two that is not above the fraction. -/
theorem magnitude_spec {n d : ℕ} (hn : 0 < n) (hd : 0 < d) :
    (2 : ℚ) ^ magnitude n d ≤ n / d ∧ (n / d : ℚ) < 2 ^ (magnitude n d + 1) := by
  have hd' : (0 : ℚ) < d := by positivity
  obtain ⟨hnl, hnh⟩ := log2_bounds hn
  obtain ⟨hdl, hdh⟩ := log2_bounds hd
  set guess : ℤ := (n.log2 : ℤ) - d.log2 with hg
  have hbelow : (2 : ℚ) ^ (guess - 1) ≤ n / d := by
    rw [le_div_iff₀ hd']
    calc (2 : ℚ) ^ (guess - 1) * d ≤ 2 ^ (guess - 1) * 2 ^ ((d.log2 : ℤ) + 1) := by gcongr
      _ = 2 ^ (n.log2 : ℤ) := by rw [← zpow_add₀ two_ne_zero]; congr 1; omega
      _ ≤ n := hnl
  have habove : (n / d : ℚ) < 2 ^ (guess + 1) := by
    rw [div_lt_iff₀ hd']
    calc (n : ℚ) < 2 ^ ((n.log2 : ℤ) + 1) := hnh
      _ = 2 ^ (guess + 1) * 2 ^ (d.log2 : ℤ) := by rw [← zpow_add₀ two_ne_zero]; congr 1; omega
      _ ≤ 2 ^ (guess + 1) * d := by gcongr
  have hguess : (scale n d guess).2 ≤ (scale n d guess).1 ↔ (2 : ℚ) ^ guess ≤ n / d := by
    have hs : (0 : ℚ) < (scale n d guess).2 := by exact_mod_cast scale_pos n hd guess
    have hone := one_le_div₀ hs (a := ((scale n d guess).1 : ℚ))
    rw [scale_div, one_le_div₀ (by positivity)] at hone
    rw [hone]
    exact_mod_cast Iff.rfl
  unfold magnitude
  simp only [← hg]
  split
  · rename_i h
    exact ⟨hguess.1 h, habove⟩
  · rename_i h
    rw [sub_add_cancel]
    exact ⟨hbelow, not_le.1 fun hc => h (hguess.2 hc)⟩

/-- The number lies between this power of two and the next. -/
def InBinade (k : ℤ) (q : ℚ) : Prop := 2 ^ k ≤ q ∧ q < 2 ^ (k + 1)

/-- A number lies in one binade only. -/
theorem InBinade.unique {q : ℚ} {k l : ℤ} (hk : InBinade k q) (hl : InBinade l q) : k = l := by
  have hkl := (zpow_lt_zpow_iff_right₀ (one_lt_two (α := ℚ))).1 (hk.1.trans_lt hl.2)
  have hlk := (zpow_lt_zpow_iff_right₀ (one_lt_two (α := ℚ))).1 (hl.1.trans_lt hk.2)
  omega

private theorem InBinade.pos {q : ℚ} {k : ℤ} (h : InBinade k q) : 0 < q := (by positivity : (0 : ℚ) < 2 ^ k).trans_le h.1

/-- The closed form: a positive number of the binade lies below the threshold of overflow, and it is at most half
of the least double or has an integer within half a unit of its last place. -/
def NearWhole (k : ℤ) (q : ℚ) : Prop :=
  q < 2 ^ 1024 - 2 ^ 970 ∧ (q ≤ 2 ^ (-1075 : ℤ) ∨ ∃ z : ℤ, |q - z| ≤ 2 ^ (k - 53))

/-- The exponent of the unit in which a number of the binade is rounded. -/
def unitExponent (k : ℤ) : ℤ := max (k - 52) (-1074)

def rounded (n d : ℕ) (k : ℤ) : ℕ := roundHalfEven (scale n d (unitExponent k)).1 (scale n d (unitExponent k)).2

section
variable {n d : ℕ} {k : ℤ}

/-- The nearest double in closed form, by the binade of the fraction. -/
theorem nearest?_eq (hd : 0 < d) (h : InBinade k (n / d)) : nearest? n d =
    if 2 ^ 1024 ≤ rounded n d k * 2 ^ (unitExponent k).toNat then none else some ⟨rounded n d k, unitExponent k⟩ := by
  have hn : 0 < n := by
    have hq := h.pos
    refine Nat.pos_of_ne_zero ?_
    rintro rfl
    simp at hq
  have hk : magnitude n d = k := InBinade.unique (magnitude_spec hn hd) h
  subst hk
  unfold nearest? rounded unitExponent
  simp only [shiftLeft_eq_mul, one_mul]

/-- The rounded number is at most half a unit away. -/
theorem abs_sub_rounded_le (hd : 0 < d) : |(n / d : ℚ) / 2 ^ unitExponent k - rounded n d k| ≤ 1 / 2 := by
  rw [← scale_div]
  exact abs_sub_roundHalfEven_le _ (scale_pos n hd _)

private theorem rounded_eq_of_even (hd : 0 < d) {m : ℕ} (hm : Even m)
    (hq : |(n / d : ℚ) / 2 ^ unitExponent k - m| ≤ 1 / 2) : rounded n d k = m := by
  rw [← scale_div] at hq
  exact roundHalfEven_eq_of_even (scale_pos n hd _) hm hq

private theorem rounded_le_even_iff (hd : 0 < d) {m : ℕ} (hm : Even m) :
    rounded n d k ≤ m ↔ (n / d : ℚ) / 2 ^ unitExponent k ≤ m + 1 / 2 := by
  rw [rounded, roundHalfEven_le_even_iff (scale_pos n hd _) hm, scale_div]

private theorem even_le_rounded_iff (hd : 0 < d) {m : ℕ} (hm : Even m) :
    m ≤ rounded n d k ↔ (m : ℚ) - 1 / 2 ≤ (n / d : ℚ) / 2 ^ unitExponent k := by
  rw [rounded, even_le_roundHalfEven_iff (scale_pos n hd _) hm, scale_div]

/-- A number of the binade is less than `2 ^ 53` units. -/
theorem scaled_lt (h : InBinade k (n / d)) : (n / d : ℚ) / 2 ^ unitExponent k < 2 ^ 53 := by
  rw [div_lt_iff₀ (by positivity), ← zpow_natCast, ← zpow_add₀ two_ne_zero]
  refine h.2.trans_le (zpow_le_zpow_right₀ one_le_two ?_)
  simp only [unitExponent]
  omega

/-- The significand may be rounded up to `2 ^ 53`, and not further. -/
theorem rounded_le (hd : 0 < d) (h : InBinade k (n / d)) : rounded n d k ≤ 2 ^ 53 := by
  rw [rounded_le_even_iff hd (by decide)]
  push_cast
  linarith [scaled_lt h]

private theorem overflow_eq : (2 : ℚ) ^ 1024 - 2 ^ 970 = (2 ^ 53 - 1 / 2) * 2 ^ (971 : ℤ) := by
  have htop : (2 : ℚ) ^ 1024 = 2 ^ 53 * (2 * 2 ^ 970) := by rw [← pow_succ', ← pow_add]
  have hunit : (2 : ℚ) ^ (971 : ℤ) = 2 * 2 ^ 970 := by
    rw [← pow_succ', ← zpow_natCast]
    rfl
  rw [htop, hunit]
  generalize (2 : ℚ) ^ 970 = unit
  ring

private theorem overflow_lt : (2 : ℚ) ^ 1024 - 2 ^ 970 < 2 ^ 1024 := sub_lt_self _ (by positivity)

/-- Whole numbers of 64 bits are below the threshold of overflow. -/
theorem pow_lt_overflow : (2 : ℚ) ^ 64 < 2 ^ 1024 - 2 ^ 970 := by
  rw [overflow_eq]
  calc (2 : ℚ) ^ 64 = 2 ^ 52 * 2 ^ (12 : ℤ) := by norm_num
    _ ≤ 2 ^ 52 * 2 ^ (971 : ℤ) := by
      gcongr
      · norm_num
      · norm_num
    _ < (2 ^ 53 - 1 / 2) * 2 ^ (971 : ℤ) := by
      gcongr
      norm_num

private theorem rounded_lt_of_small (hd : 0 < d) (h : InBinade k (n / d)) (hk : k < 1023) :
    rounded n d k * 2 ^ (unitExponent k).toNat < 2 ^ 1024 := by
  have he : (unitExponent k).toNat ≤ 970 := by
    simp only [unitExponent]
    omega
  calc rounded n d k * 2 ^ (unitExponent k).toNat ≤ 2 ^ 53 * 2 ^ 970 :=
        Nat.mul_le_mul (rounded_le hd h) (pow_le_pow_right₀ one_le_two he)
    _ < 2 ^ 1024 := by
      rw [← pow_add]
      exact pow_lt_pow_right₀ one_lt_two (by decide)

private theorem lt_overflow_of_small {q : ℚ} (h : InBinade k q) (hk : k < 1023) : q < 2 ^ 1024 - 2 ^ 970 := by
  rw [overflow_eq]
  calc q < 2 ^ (k + 1) := h.2
    _ ≤ 2 ^ ((52 : ℤ) + 971) := zpow_le_zpow_right₀ one_le_two (by omega)
    _ = 2 ^ (52 : ℤ) * 2 ^ (971 : ℤ) := zpow_add₀ two_ne_zero _ _
    _ ≤ (2 ^ 53 - 1 / 2) * 2 ^ (971 : ℤ) := by
      gcongr
      norm_num

private theorem overflow_iff_of_last (hd : 0 < d) :
    2 ^ 1024 ≤ rounded n d 1023 * 2 ^ (unitExponent 1023).toNat ↔ (2 : ℚ) ^ 1024 - 2 ^ 970 ≤ n / d := by
  have he : unitExponent 1023 = 971 := rfl
  have hmul : (2 : ℕ) ^ 1024 = 2 ^ 53 * 2 ^ 971 := by rw [← pow_add]
  have hs := even_le_rounded_iff (n := n) (k := 1023) hd (m := 2 ^ 53) (by decide)
  rw [he] at hs ⊢
  rw [hmul, overflow_eq, ← le_div_iff₀ (by positivity)]
  simp only [Nat.cast_pow, Nat.cast_ofNat] at hs
  rw [← hs, show (971 : ℤ).toNat = 971 from rfl]
  exact mul_le_mul_iff_left₀ (pow_pos two_pos 971)

private theorem le_rounded_of_large (hd : 0 < d) (h : InBinade k (n / d)) (hk : 1023 < k) :
    2 ^ 1024 ≤ rounded n d k * 2 ^ (unitExponent k).toNat := by
  have he : unitExponent k = k - 52 := max_eq_left (by omega)
  have hscaled : (2 : ℚ) ^ (52 : ℤ) ≤ n / d / 2 ^ (k - 52) := by
    rw [le_div_iff₀ (by positivity), ← zpow_add₀ two_ne_zero, add_sub_cancel]
    exact h.1
  have hrounded : 2 ^ 52 ≤ rounded n d k := by
    rw [even_le_rounded_iff hd (by decide), he]
    refine le_trans ?_ hscaled
    norm_num
  calc 2 ^ 1024 = 2 ^ 52 * 2 ^ 972 := by rw [← pow_add]
    _ ≤ rounded n d k * 2 ^ (unitExponent k).toNat :=
      Nat.mul_le_mul hrounded (pow_le_pow_right₀ one_le_two (by omega))

private theorem overflow_le_of_large {q : ℚ} (h : InBinade k q) (hk : 1023 < k) : (2 : ℚ) ^ 1024 - 2 ^ 970 ≤ q := by
  refine overflow_lt.le.trans (le_trans ?_ h.1)
  rw [← zpow_natCast]
  exact zpow_le_zpow_right₀ one_le_two (by push_cast; omega)

/-- A fraction is rounded to infinity exactly from the threshold on. -/
theorem overflow_iff (hd : 0 < d) (h : InBinade k (n / d)) :
    2 ^ 1024 ≤ rounded n d k * 2 ^ (unitExponent k).toNat ↔ (2 : ℚ) ^ 1024 - 2 ^ 970 ≤ n / d := by
  rcases lt_trichotomy k 1023 with hk | rfl | hk
  · exact iff_of_false (rounded_lt_of_small hd h hk).not_ge (lt_overflow_of_small h hk).not_ge
  · exact overflow_iff_of_last hd
  · exact iff_of_true (le_rounded_of_large hd h hk) (overflow_le_of_large h hk)

private theorem isWhole_iff_dvd {s m : ℕ} : isWhole ⟨s, -((m : ℤ) + 1)⟩ ↔ 2 ^ (m + 1) ∣ s := by
  have hneg : ¬ (0 : ℤ) ≤ -((m : ℤ) + 1) := by omega
  have hexp : (- -((m : ℤ) + 1)).toNat = m + 1 := by omega
  simp only [isWhole, hneg, hexp, decide_false, Bool.false_or, decide_eq_true_eq, shiftLeft_eq_mul, one_mul,
    Nat.dvd_iff_mod_eq_zero]

private theorem near_iff {m : ℕ} (q x : ℚ) :
    |q / 2 ^ (-((m : ℤ) + 1)) - x * 2 ^ (m + 1)| ≤ 1 / 2 ↔ |q - x| ≤ 2 ^ (-((m : ℤ) + 1) - 1) := by
  have hscale : q / 2 ^ (-((m : ℤ) + 1)) = q * 2 ^ (m + 1) := by
    rw [zpow_neg, div_inv_eq_mul]
    norm_cast
  have hhalf : (2 : ℚ) ^ (-((m : ℤ) + 1) - 1) = 1 / 2 / 2 ^ (m + 1) := by
    rw [zpow_sub₀ two_ne_zero, zpow_neg, zpow_one, div_div, one_div, mul_comm, mul_inv, div_eq_mul_inv]
    norm_cast
  have hpos : (0 : ℚ) < 2 ^ (m + 1) := by positivity
  rw [hscale, ← sub_mul, abs_mul, abs_of_pos hpos, hhalf, le_div_iff₀ hpos]

private theorem pos_of_near {q : ℚ} (h : InBinade k q) {z : ℤ} (hz : |q - z| ≤ 2 ^ (k - 53)) : 0 < z := by
  have hsmall : (2 : ℚ) ^ (k - 53) < 2 ^ k := zpow_lt_zpow_right₀ one_lt_two (by omega)
  have hpos : (0 : ℚ) < z := by linarith [h.1, (abs_le.1 hz).2]
  exact_mod_cast hpos

private theorem isWhole_iff_of_normal (hd : 0 < d) (h : InBinade k (n / d)) (hl : -1022 ≤ k) (hh : k < 52) :
    isWhole ⟨rounded n d k, unitExponent k⟩ ↔ ∃ z : ℤ, |(n / d : ℚ) - z| ≤ 2 ^ (k - 53) := by
  obtain ⟨m, hm⟩ : ∃ m : ℕ, k = 51 - m := ⟨(51 - k).toNat, by omega⟩
  have he : unitExponent k = -((m : ℤ) + 1) := by rw [unitExponent, max_eq_left (by omega)]; omega
  have hn : k - 53 = -((m : ℤ) + 1) - 1 := by omega
  have hs := abs_sub_rounded_le (n := n) (k := k) hd
  rw [he, isWhole_iff_dvd]
  constructor
  · rintro ⟨z, hz⟩
    rw [hz, he] at hs
    refine ⟨z, ?_⟩
    rw [hn, ← near_iff]
    push_cast at hs ⊢
    rwa [mul_comm (z : ℚ)]
  · rintro ⟨z, hz⟩
    obtain ⟨z, rfl⟩ := Int.eq_ofNat_of_zero_le (pos_of_near h hz).le
    rw [hn, ← near_iff, ← he] at hz
    -- an integer is an even number of units, so a tie goes to it
    have heven : Even (z * 2 ^ (m + 1)) := by
      rw [pow_succ]
      exact (even_two.mul_left _).mul_left _
    rw [rounded_eq_of_even hd heven (by push_cast at hz ⊢; exact hz)]
    exact Dvd.intro_left z rfl

private theorem isWhole_iff_of_subnormal (hd : 0 < d) (h : InBinade k (n / d)) (hl : k < -1022) :
    isWhole ⟨rounded n d k, unitExponent k⟩ ↔ (n / d : ℚ) ≤ 2 ^ (-1075 : ℤ) := by
  obtain ⟨m, hm, hlarge⟩ : ∃ m : ℕ, -1074 = -((m : ℤ) + 1) ∧ 53 ≤ m := ⟨1073, by omega, by omega⟩
  have he : unitExponent k = -((m : ℤ) + 1) := by rw [unitExponent, max_eq_right (by omega), hm]
  have hlt : rounded n d k < 2 ^ (m + 1) :=
    (rounded_le hd h).trans_lt (pow_lt_pow_right₀ one_lt_two (by omega))
  have hzero : rounded n d k ≤ 0 ↔ (n / d : ℚ) ≤ 2 ^ (-1075 : ℤ) := by
    rw [rounded_le_even_iff hd Even.zero, he, Nat.cast_zero, zero_add, div_le_iff₀ (by positivity),
      show (-1075 : ℤ) = -1 + -((m : ℤ) + 1) by omega, zpow_add₀ two_ne_zero, zpow_neg_one, one_div]
  rw [he, isWhole_iff_dvd, ← hzero, Nat.le_zero]
  exact ⟨fun hdvd => Nat.eq_zero_of_dvd_of_lt hdvd hlt, fun h0 => h0 ▸ dvd_zero _⟩

private theorem not_near_of_subnormal {q : ℚ} (h : InBinade k q) (hl : k < -1022) (z : ℤ) :
    ¬ |q - z| ≤ 2 ^ (k - 53) := by
  intro hz
  -- The integer would be a positive one, and those are too large.
  have hone : (1 : ℚ) ≤ z := by exact_mod_cast pos_of_near h hz
  have hquarter {j : ℤ} (hj : j ≤ -2) : (2 : ℚ) ^ j ≤ 1 / 4 := by
    refine (zpow_le_zpow_right₀ one_le_two hj).trans_eq ?_
    norm_num
  have hunit := hquarter (j := k - 53) (by omega)
  have hnext := hquarter (j := k + 1) (by omega)
  linarith [h.2, (abs_le.1 hz).1]

private theorem near_of_large (q : ℚ) (hl : 52 ≤ k) : ∃ z : ℤ, |q - z| ≤ 2 ^ (k - 53) := by
  refine ⟨round q, (abs_sub_round q).trans ?_⟩
  have hhalf : (2 : ℚ) ^ (-1 : ℤ) ≤ 2 ^ (k - 53) := zpow_le_zpow_right₀ one_le_two (by omega)
  rwa [zpow_neg_one, ← one_div] at hhalf

/-- A fraction is rounded to an integer exactly if the closed form holds of it. -/
theorem nearest?_isWhole_iff (hd : 0 < d) (h : InBinade k (n / d)) :
    (∃ x, nearest? n d = some x ∧ x.isWhole) ↔ NearWhole k (n / d) := by
  unfold NearWhole
  rw [nearest?_eq hd h]
  split
  · rename_i ho
    rw [overflow_iff hd h] at ho
    simp [ho.not_gt]
  · rename_i ho
    rw [overflow_iff hd h, not_le] at ho
    have hw (y : Binary64) : (∃ x, some y = some x ∧ x.isWhole) ↔ y.isWhole := by simp
    rw [hw, and_iff_right ho]
    rcases lt_or_ge k (-1022) with hl | hl
    · rw [isWhole_iff_of_subnormal hd h hl, or_iff_left]
      rintro ⟨z, hz⟩
      exact not_near_of_subnormal h hl z hz
    have hnormal : ¬ (n / d : ℚ) ≤ 2 ^ (-1075 : ℤ) := by
      refine not_le.2 (lt_of_lt_of_le ?_ h.1)
      exact zpow_lt_zpow_right₀ one_lt_two (by omega)
    rw [or_iff_right hnormal]
    rcases lt_or_ge k 52 with hh | hh
    · exact isWhole_iff_of_normal hd h hl hh
    · have he : (0 : ℤ) ≤ unitExponent k := by
        simp only [unitExponent]
        omega
      refine iff_of_true ?_ (near_of_large _ hh)
      simp [isWhole, he]

end

private theorem not_nearWhole_of_large {significand : ℕ} (hs : 0 < significand) {exponent : ℤ} (he : 309 ≤ exponent)
    (k : ℤ) : ¬ NearWhole k (significand * 10 ^ exponent) := by
  intro h
  have hone : (1 : ℚ) ≤ significand := by exact_mod_cast hs
  have hpow : (2 : ℚ) ^ 1024 ≤ 10 ^ (309 : ℕ) := by exact_mod_cast (by decide +kernel : 2 ^ 1024 ≤ 10 ^ 309)
  have hlarge : (2 : ℚ) ^ 1024 ≤ significand * 10 ^ exponent := by
    calc (2 : ℚ) ^ 1024 ≤ 10 ^ (309 : ℕ) := hpow
      _ = 10 ^ (309 : ℤ) := (zpow_natCast _ _).symm
      _ ≤ 10 ^ exponent := zpow_le_zpow_right₀ (by norm_num) he
      _ ≤ significand * 10 ^ exponent := le_mul_of_one_le_left (by positivity) hone
  exact (h.1.trans overflow_lt).not_ge hlarge

private theorem le_of_tiny {significand : ℕ} (hs : 0 < significand) {exponent : ℤ} (hn : exponent < 0)
    (he : (significand.log2 : ℤ) + 1 + 1075 ≤ 3 * -exponent) :
    (significand * 10 ^ exponent : ℚ) ≤ 2 ^ (-1075 : ℤ) := by
  have hpow : (10 : ℚ) ^ exponent ≤ 2 ^ (3 * exponent) := by
    obtain ⟨m, rfl⟩ : ∃ m : ℕ, exponent = -m := ⟨(-exponent).toNat, by omega⟩
    have height : (2 : ℚ) ^ (3 : ℤ) = 8 := by norm_num
    rw [zpow_mul, height, zpow_neg, zpow_neg, zpow_natCast, zpow_natCast]
    exact inv_anti₀ (by positivity) (pow_le_pow_left₀ (by norm_num) (by norm_num) m)
  calc (significand * 10 ^ exponent : ℚ) ≤ 2 ^ ((significand.log2 : ℤ) + 1) * 2 ^ (3 * exponent) := by
        gcongr
        exact (log2_bounds hs).2.le
    _ = 2 ^ ((significand.log2 : ℤ) + 1 + 3 * exponent) := (zpow_add₀ two_ne_zero _ _).symm
    _ ≤ 2 ^ (-1075 : ℤ) := zpow_le_zpow_right₀ one_le_two (by omega)

/-- The shortcuts for exponents beyond all doubles decide as the rounding would. -/
theorem ofDecimal?_isWhole_iff {significand : ℕ} {exponent k : ℤ} (h : InBinade k (significand * 10 ^ exponent)) :
    (∃ x, ofDecimal? significand exponent = some x ∧ x.isWhole) ↔ NearWhole k (significand * 10 ^ exponent) := by
  have hs : 0 < significand := by
    have hq := h.pos
    refine Nat.pos_of_ne_zero ?_
    rintro rfl
    simp at hq
  unfold ofDecimal?
  rw [if_neg hs.ne']
  split
  · rename_i he
    simp [not_nearWhole_of_large hs he k]
  split
  · rename_i hp
    obtain ⟨m, rfl⟩ := Int.eq_ofNat_of_zero_le hp
    have hq : (significand * 10 ^ (m : ℤ) : ℚ) = (significand * 10 ^ m : ℕ) / (1 : ℕ) := by
      push_cast
      rw [zpow_natCast, div_one]
    rw [hq] at h ⊢
    exact nearest?_isWhole_iff one_pos h
  · rename_i hn
    split
    · rename_i he
      have htiny := le_of_tiny hs (not_le.1 hn) he
      have hbelow : (2 : ℚ) ^ (-1075 : ℤ) < 2 ^ 1024 - 2 ^ 970 := by
        calc (2 : ℚ) ^ (-1075 : ℤ) < 1 := zpow_lt_one_of_neg₀ one_lt_two (by norm_num)
          _ < 2 ^ 64 := by norm_num
          _ < 2 ^ 1024 - 2 ^ 970 := pow_lt_overflow
      exact iff_of_true ⟨⟨0, 0⟩, rfl, rfl⟩ ⟨htiny.trans_lt hbelow, .inl htiny⟩
    · obtain ⟨m, rfl⟩ : ∃ m : ℕ, exponent = -m := ⟨(-exponent).toNat, by omega⟩
      have hq : (significand * 10 ^ (-(m : ℤ)) : ℚ) = significand / (10 ^ m : ℕ) := by
        push_cast
        rw [zpow_neg, zpow_natCast, div_eq_mul_inv]
      rw [hq] at h ⊢
      rw [neg_neg, Int.toNat_natCast]
      exact nearest?_isWhole_iff (Nat.pow_pos (by decide)) h

end TypeSketch.Binary64
