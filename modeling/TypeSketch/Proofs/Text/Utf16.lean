/-! UTF-16: characters as units of 16 bits. A character of the basic plane is one unit, any other one a pair of surrogates,
the high one first. A sequence of units whose surrogates stand in such pairs is that of a text, which it is decoded to. -/
namespace TypeSketch.Utf16

def IsHigh (unit : Nat) : Prop := 0xD800 ≤ unit ∧ unit < 0xDC00
  deriving Decidable

def IsLow (unit : Nat) : Prop := 0xDC00 ≤ unit ∧ unit < 0xE000
  deriving Decidable

def units (c : Char) : List Nat :=
  if c.toNat < 0x10000 then [c.toNat]
  else [0xD800 + (c.toNat - 0x10000) / 0x400, 0xDC00 + (c.toNat - 0x10000) % 0x400]

def encode (text : List Char) : List Nat := text.flatMap units

/-- The characters of a sequence of units, where its surrogates stand in pairs. -/
def decode : List Nat → List Char
  | high :: low :: rest =>
    if IsHigh high then Char.ofNat (0x10000 + (high - 0xD800) * 0x400 + (low - 0xDC00)) :: decode rest
    else Char.ofNat high :: decode (low :: rest)
  | [unit] => [Char.ofNat unit]
  | [] => []

/-- Directly behind each high surrogate stands a low one, and directly before each low one a high one. -/
structure WellFormed (units : List Nat) : Prop where
  high : ∀ i, units[i]?.any (IsHigh ·) → units[i + 1]?.any (IsLow ·)
  low : ∀ i, units[i]?.any (IsLow ·) → 0 < i ∧ units[i - 1]?.any (IsHigh ·)

theorem IsHigh.not_isLow {unit : Nat} (h : IsHigh unit) : ¬ IsLow unit := by
  simp only [IsHigh, IsLow] at *
  omega

theorem wellFormed_nil : WellFormed [] := ⟨by simp, by simp⟩

/-- A unit that is no surrogate stands for itself. -/
theorem wellFormed_cons_iff {unit : Nat} (hh : ¬ IsHigh unit) (hl : ¬ IsLow unit) {rest : List Nat} :
    WellFormed (unit :: rest) ↔ WellFormed rest := by
  constructor
  · intro h
    refine ⟨fun i hi => ?_, fun i hi => ?_⟩
    · simpa using h.high (i + 1) (by simpa using hi)
    · have hbefore := (h.low (i + 1) (by simpa using hi)).2
      cases i with
      | zero => exact absurd (by simpa using hbefore) hh
      | succ i => exact ⟨i.succ_pos, by simpa using hbefore⟩
  · intro h
    refine ⟨fun i hi => ?_, fun i hi => ?_⟩
    · cases i with
      | zero => exact absurd (by simpa using hi) hh
      | succ i => simpa using h.high i (by simpa using hi)
    · cases i with
      | zero => exact absurd (by simpa using hi) hl
      | succ i =>
        obtain ⟨hpos, hbefore⟩ := h.low i (by simpa using hi)
        cases i with
        | zero => cases hpos
        | succ i => exact ⟨by omega, by simpa using hbefore⟩

/-- A pair of surrogates stands for itself. -/
theorem wellFormed_pair_iff {high low : Nat} (hh : IsHigh high) (hl : IsLow low) {rest : List Nat} :
    WellFormed (high :: low :: rest) ↔ WellFormed rest := by
  have hlow : ¬ IsHigh low := fun h => h.not_isLow hl
  constructor
  · intro h
    refine ⟨fun i hi => ?_, fun i hi => ?_⟩
    · simpa using h.high (i + 2) (by simpa using hi)
    · have hbefore := (h.low (i + 2) (by simpa using hi)).2
      cases i with
      | zero => exact absurd (by simpa using hbefore) hlow
      | succ i => exact ⟨i.succ_pos, by simpa using hbefore⟩
  · intro h
    refine ⟨fun i hi => ?_, fun i hi => ?_⟩
    · match i with
      | 0 => simpa using hl
      | 1 => exact absurd (by simpa using hi) hlow
      | i + 2 => simpa using h.high i (by simpa using hi)
    · match i with
      | 0 => exact absurd (by simpa using hi) hh.not_isLow
      | 1 => exact ⟨Nat.one_pos, by simpa using hh⟩
      | i + 2 =>
        obtain ⟨hpos, hbefore⟩ := h.low i (by simpa using hi)
        cases i with
        | zero => cases hpos
        | succ i => exact ⟨by omega, by simpa using hbefore⟩

/-- Behind a high surrogate in front there is a low one. -/
theorem WellFormed.isLow {high : Nat} {rest : List Nat} (h : WellFormed (high :: rest)) (hh : IsHigh high) :
    ∃ low more, rest = low :: more ∧ IsLow low := by
  have hnext : rest.head?.any (IsLow ·) := by simpa [List.head?_eq_getElem?] using h.high 0 (by simpa using hh)
  cases rest with
  | nil => cases hnext
  | cons low more => exact ⟨low, more, rfl, by simpa using hnext⟩

/-- No low surrogate is in front. -/
theorem WellFormed.not_isLow {unit : Nat} {rest : List Nat} (h : WellFormed (unit :: rest)) : ¬ IsLow unit :=
  fun hl => Nat.lt_irrefl 0 (h.low 0 (by simpa using hl)).1

theorem toNat_ofNat {code : Nat} (h : code.isValidChar) : (Char.ofNat code).toNat = code := by
  rw [Char.ofNat, dif_pos h]
  rfl

/-- A unit that is no surrogate is the code of a character. -/
theorem isValidChar_of_lt {unit : Nat} (h : unit < 0x10000) (hh : ¬ IsHigh unit) (hl : ¬ IsLow unit) :
    unit.isValidChar := by
  simp only [IsHigh, IsLow] at hh hl
  simp only [Nat.isValidChar]
  omega

/-- No character has the code of a surrogate. -/
theorem not_surrogate (c : Char) : ¬ IsHigh c.toNat ∧ ¬ IsLow c.toNat := by
  have hv : c.toNat.isValidChar := c.valid
  simp only [Nat.isValidChar] at hv
  simp only [IsHigh, IsLow]
  omega

theorem encode_cons (c : Char) (text : List Char) : encode (c :: text) = units c ++ encode text := rfl

private theorem units_pair {high low : Nat} (hh : IsHigh high) (hl : IsLow low) :
    units (Char.ofNat (0x10000 + (high - 0xD800) * 0x400 + (low - 0xDC00))) = [high, low] := by
  simp only [IsHigh, IsLow] at hh hl
  generalize hcode : 0x10000 + (high - 0xD800) * 0x400 + (low - 0xDC00) = code
  have hv : code.isValidChar := by
    simp only [Nat.isValidChar]
    omega
  rw [units, toNat_ofNat hv, if_neg (by omega)]
  simp only [List.cons.injEq, and_true]
  omega

private theorem units_single {unit : Nat} (h : unit < 0x10000) (hh : ¬ IsHigh unit) (hl : ¬ IsLow unit) :
    units (Char.ofNat unit) = [unit] := by
  rw [units, toNat_ofNat (isValidChar_of_lt h hh hl), if_pos h]

/-- Where the surrogates stand in pairs, the units are those of the text that they are decoded to. -/
theorem encode_decode {units : List Nat} (h : WellFormed units) (hb : ∀ unit ∈ units, unit < 0x10000) :
    encode (decode units) = units := by
  fun_induction decode units with
  | case1 high low rest hh ih =>
    obtain ⟨_, _, hrest, hl⟩ := h.isLow hh
    obtain ⟨rfl, rfl⟩ := List.cons.inj hrest
    rw [encode_cons, units_pair hh hl, ih ((wellFormed_pair_iff hh hl).1 h) fun unit hu => hb unit (by simp [hu])]
    rfl
  | case2 unit next rest hh ih =>
    rw [encode_cons, units_single (hb unit (by simp)) hh h.not_isLow,
      ih ((wellFormed_cons_iff hh h.not_isLow).1 h) fun unit hu => hb unit (List.mem_cons_of_mem _ hu)]
    rfl
  | case3 unit =>
    have hh : ¬ IsHigh unit := by
      intro hh
      obtain ⟨_, _, hrest, -⟩ := h.isLow hh
      cases hrest
    rw [encode_cons, units_single (hb unit (by simp)) hh h.not_isLow]
    rfl
  | case4 => rfl

end TypeSketch.Utf16
