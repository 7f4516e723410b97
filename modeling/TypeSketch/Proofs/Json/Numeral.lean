import TypeSketch.Proofs.Json.Grammar

/-! The numerals that are read one character at a time are those of the grammar, and they are kept as the
grammar says. -/
namespace TypeSketch.Numeral

def reachFrom (stage : Stage) : List Char → Option Stage
  | [] => some stage
  | c :: rest =>
    match stage.next c with
    | .more next => reachFrom next rest
    | .ends | .refused _ => none

def reach? : List Char → Option Stage
  | [] => none
  | c :: rest => (start? c).bind (reachFrom · rest)

private theorem reachFrom_append (stage : Stage) (front back : List Char) :
    reachFrom stage (front ++ back) = (reachFrom stage front).bind (reachFrom · back) := by
  induction front generalizing stage with
  | nil => rfl
  | cons c front ih =>
    simp only [List.cons_append, reachFrom]
    split
    · exact ih _
    · rfl
    · rfl

private theorem reach?_append {front : List Char} (back : List Char) {stage : Stage} (h : reach? front = some stage) :
    reach? (front ++ back) = reachFrom stage back := by
  cases front with
  | nil => simp [reach?] at h
  | cons c front =>
    simp only [reach?, Option.bind_eq_some_iff] at h
    obtain ⟨first, hc, h⟩ := h
    simp only [List.cons_append, reach?, hc, Option.bind_some, reachFrom_append, h]

/-- A text is one numeral and nothing else if it leads to a stage where a numeral may end. -/
theorem fault?_eq_none_iff {text : List Char} :
    fault? text = none ↔ ∃ stage, reach? text = some stage ∧ stage.isComplete := by
  have from_stage (stage : Stage) (passed : Nat) (rest : List Char) :
      faultFrom stage passed rest = none ↔ ∃ last, reachFrom stage rest = some last ∧ last.isComplete := by
    induction rest generalizing stage passed with
    | nil => cases h : stage.isComplete <;> simp [faultFrom, reachFrom, h]
    | cons c rest ih =>
      simp only [faultFrom, reachFrom]
      split <;> simp [*]
  cases text with
  | nil => simp [fault?, reach?]
  | cons c rest => cases h : start? c <;> simp [fault?, reach?, h, from_stage]

theorem digit_ne {c d : Char} (h : c.isDigit) (hd : d.isDigit = false) : c ≠ d := by
  rintro rfl
  rw [h] at hd
  cases hd

private theorem Digits.eq_cons {text : List Char} (digits : Digits text) :
    ∃ c rest, text = c :: rest ∧ c.isDigit ∧ ∀ d ∈ rest, d.isDigit := by
  obtain ⟨hn, hd⟩ := digits
  cases text with
  | nil => exact absurd rfl hn
  | cons c rest => exact ⟨c, rest, rfl, hd c (by simp), fun d h => hd d (by simp [h])⟩

private theorem reachFrom_digits {stage : Stage} (hs : stage = .whole ∨ stage = .fraction ∨ stage = .power)
    {text : List Char} (h : ∀ c ∈ text, c.isDigit) : reachFrom stage text = some stage := by
  induction text with
  | nil => rfl
  | cons c text ih =>
    have hc := h c (by simp)
    have hrest := ih (fun d hd => h d (by simp [hd]))
    rcases hs with rfl | rfl | rfl <;> simpa [reachFrom, Stage.next, hc] using hrest

private theorem reach?_whole {minus whole : List Char} (signs : minus = [] ∨ minus = ['-']) (h : Whole whole) :
    reach? (minus ++ whole) = some .zero ∨ reach? (minus ++ whole) = some .whole := by
  cases h with
  | zero => rcases signs with rfl | rfl <;> exact .inl rfl
  | digits digits lead =>
    obtain ⟨c, rest, rfl, hc, hd⟩ := digits.eq_cons
    have hz : c ≠ '0' := by simpa using lead
    have hm : c ≠ '-' := digit_ne hc rfl
    have hrest := reachFrom_digits (.inl rfl) hd
    rcases signs with rfl | rfl
    · exact .inr (by simpa [reach?, start?, hm, hz, hc] using hrest)
    · exact .inr (by simpa [reach?, start?, reachFrom, Stage.next, hz, hc] using hrest)

private theorem reachFrom_fraction {stage : Stage} (hs : stage = .zero ∨ stage = .whole) {fraction : List Char}
    (h : Fraction fraction) :
    reachFrom stage fraction = some stage ∨ reachFrom stage fraction = some .fraction := by
  cases h with
  | absent => exact .inl rfl
  | present digits =>
    obtain ⟨c, rest, rfl, hc, hd⟩ := digits.eq_cons
    have hrest := reachFrom_digits (.inr (.inl rfl)) hd
    have hp : ('.' : Char).isDigit = false := rfl
    refine .inr ?_
    rcases hs with rfl | rfl <;> simpa [reachFrom, Stage.next, hp, hc] using hrest

private theorem reachFrom_exponent {stage : Stage} (hs : stage = .zero ∨ stage = .whole ∨ stage = .fraction)
    {exponent kept : List Char} (h : Exponent exponent kept) :
    ∃ last, reachFrom stage exponent = some last ∧ last.isComplete := by
  cases h with
  | absent => rcases hs with rfl | rfl | rfl <;> exact ⟨_, rfl, rfl⟩
  | unsigned marks digits =>
    obtain ⟨c, rest, rfl, hc, hd⟩ := digits.eq_cons
    have hrest := reachFrom_digits (.inr (.inr rfl)) hd
    have hp : c ≠ '+' := digit_ne hc rfl
    have hq : c ≠ '-' := digit_ne hc rfl
    refine ⟨.power, ?_, rfl⟩
    rcases hs with rfl | rfl | rfl <;> rcases marks with rfl | rfl <;>
      simpa [reachFrom, Stage.next, isMark, hc, hp, hq] using hrest
  | signed marks signs digits =>
    obtain ⟨c, rest, rfl, hc, hd⟩ := digits.eq_cons
    have hrest := reachFrom_digits (.inr (.inr rfl)) hd
    refine ⟨.power, ?_, rfl⟩
    rcases hs with rfl | rfl | rfl <;> rcases marks with rfl | rfl <;>
      simpa [reachFrom, Stage.next, isMark, hc, signs] using hrest

/-- Every numeral of the grammar is read to a stage where it may end. -/
theorem Written.reaches {text kept : List Char} (h : Written text kept) :
    ∃ stage, reach? text = some stage ∧ stage.isComplete := by
  obtain @⟨minus, whole, fraction, exponent, kept, signs, wholes, fractions, exponents⟩ := h
  have hw : ∃ stage, (stage = .zero ∨ stage = .whole) ∧ reach? (minus ++ whole) = some stage := by
    rcases reach?_whole signs wholes with h | h
    · exact ⟨_, .inl rfl, h⟩
    · exact ⟨_, .inr rfl, h⟩
  obtain ⟨first, hs, hw⟩ := hw
  have hf : ∃ stage, (stage = .zero ∨ stage = .whole ∨ stage = .fraction) ∧
      reachFrom first fraction = some stage := by
    rcases reachFrom_fraction hs fractions with h | h
    · exact ⟨first, hs.elim .inl (.inr ∘ .inl), h⟩
    · exact ⟨_, .inr (.inr rfl), h⟩
  obtain ⟨second, hs, hf⟩ := hf
  obtain ⟨last, he, hl⟩ := reachFrom_exponent hs exponents
  refine ⟨last, ?_, hl⟩
  rw [List.append_assoc, reach?_append _ hw, reachFrom_append, hf]
  exact he

/-- What has been read of a numeral at each stage. -/
inductive Reached : Stage → List Char → Prop
  | minus : Reached .minus ['-']
  | zero {minus : List Char} (signs : minus = [] ∨ minus = ['-']) : Reached .zero (minus ++ ['0'])
  | whole {minus text : List Char} (signs : minus = [] ∨ minus = ['-']) (digits : Digits text)
      (lead : text.head? ≠ some '0') : Reached .whole (minus ++ text)
  | point {minus whole : List Char} (signs : minus = [] ∨ minus = ['-']) (wholes : Whole whole) :
      Reached .point (minus ++ whole ++ ['.'])
  | fraction {minus whole text : List Char} (signs : minus = [] ∨ minus = ['-']) (wholes : Whole whole)
      (digits : Digits text) : Reached .fraction (minus ++ whole ++ '.' :: text)
  | mark {minus whole fraction : List Char} {mark : Char} (signs : minus = [] ∨ minus = ['-'])
      (wholes : Whole whole) (fractions : Fraction fraction) (marks : mark = 'e' ∨ mark = 'E') :
      Reached .mark (minus ++ whole ++ fraction ++ [mark])
  | sign {minus whole fraction : List Char} {mark sign : Char} (signs : minus = [] ∨ minus = ['-'])
      (wholes : Whole whole) (fractions : Fraction fraction) (marks : mark = 'e' ∨ mark = 'E')
      (signed : sign = '+' ∨ sign = '-') : Reached .sign (minus ++ whole ++ fraction ++ [mark, sign])
  | power {minus whole fraction exponent kept : List Char} (signs : minus = [] ∨ minus = ['-'])
      (wholes : Whole whole) (fractions : Fraction fraction) (exponents : Exponent exponent kept)
      (present : exponent ≠ []) : Reached .power (minus ++ whole ++ fraction ++ exponent)

private theorem digits_singleton {c : Char} (h : c.isDigit) : Digits [c] := ⟨by simp, by simpa using h⟩

private theorem Digits.snoc {text : List Char} (digits : Digits text) {c : Char} (h : c.isDigit) :
    Digits (text ++ [c]) := by
  refine ⟨by simp, fun d hd => ?_⟩
  rcases List.mem_append.1 hd with hd | hd
  · exact digits.2 d hd
  · rw [List.mem_singleton.1 hd]
    exact h

theorem reached_start {c : Char} {stage : Stage} (h : start? c = some stage) : Reached stage [c] := by
  simp only [start?] at h
  split at h
  · rename_i hc
    cases h
    exact hc ▸ .minus
  split at h
  · rename_i hc
    cases h
    exact hc ▸ .zero (.inl rfl)
  split at h
  · rename_i hz hd
    cases h
    exact .whole (.inl rfl) (digits_singleton hd) (by simpa using hz)
  · cases h

private theorem Exponent.snoc {exponent kept : List Char} (h : Exponent exponent kept) (present : exponent ≠ [])
    {c : Char} (hc : c.isDigit) : Exponent (exponent ++ [c]) (kept ++ [c]) := by
  cases h with
  | absent => exact absurd rfl present
  | unsigned marks digits => exact .unsigned marks (digits.snoc hc)
  | signed marks signs digits => exact .signed marks signs (digits.snoc hc)

/-- A character that belongs to the numeral leads from what has been read at one stage to the next. -/
theorem Reached.step {stage next : Stage} {text : List Char} (h : Reached stage text) {c : Char}
    (hc : stage.next c = .more next) : Reached next (text ++ [c]) := by
  cases h with
  | minus =>
    simp only [Stage.next] at hc
    split at hc
    · cases hc
      rename_i h0
      exact h0 ▸ .zero (.inr rfl)
    split at hc
    · cases hc
      rename_i h0 hd
      exact @Reached.whole ['-'] _ (.inr rfl) (digits_singleton hd) (by simpa using h0)
    · cases hc
  | zero signs =>
    simp only [Stage.next, isMark, Bool.or_eq_true, decide_eq_true_eq] at hc
    split at hc
    · cases hc
    split at hc
    · cases hc
      rename_i hp
      exact hp ▸ .point signs .zero
    split at hc
    · cases hc
      rename_i hm
      simpa using Reached.mark signs .zero .absent hm
    · cases hc
  | whole signs digits lead =>
    simp only [Stage.next, isMark, Bool.or_eq_true, decide_eq_true_eq] at hc
    split at hc
    · cases hc
      rename_i hd
      rw [List.append_assoc]
      obtain ⟨first, rest, rfl, -, -⟩ := digits.eq_cons
      exact .whole signs (digits.snoc hd) lead
    split at hc
    · cases hc
      rename_i hp
      exact hp ▸ .point signs (.digits digits lead)
    split at hc
    · cases hc
      rename_i hm
      simpa using Reached.mark signs (.digits digits lead) .absent hm
    · cases hc
  | point signs wholes =>
    simp only [Stage.next] at hc
    split at hc
    · cases hc
      rename_i hd
      simpa using Reached.fraction signs wholes (digits_singleton hd)
    · cases hc
  | fraction signs wholes digits =>
    simp only [Stage.next, isMark, Bool.or_eq_true, decide_eq_true_eq] at hc
    split at hc
    · cases hc
      rename_i hd
      simpa using Reached.fraction signs wholes (digits.snoc hd)
    split at hc
    · cases hc
      rename_i hm
      exact .mark signs wholes (.present digits) hm
    · cases hc
  | mark signs wholes fractions marks =>
    simp only [Stage.next] at hc
    split at hc
    · cases hc
      rename_i hs
      simpa using Reached.sign signs wholes fractions marks hs
    split at hc
    · cases hc
      rename_i hd
      simpa using Reached.power signs wholes fractions (.unsigned marks (digits_singleton hd)) (by simp)
    · cases hc
  | sign signs wholes fractions marks signed =>
    simp only [Stage.next] at hc
    split at hc
    · cases hc
      rename_i hd
      simpa using Reached.power signs wholes fractions (.signed marks signed (digits_singleton hd)) (by simp)
    · cases hc
  | power signs wholes fractions exponents present =>
    simp only [Stage.next] at hc
    split at hc
    · cases hc
      rename_i hd
      simpa using Reached.power signs wholes fractions (exponents.snoc present hd) (by simp)
    · cases hc

/-- A numeral may end exactly where the grammar has one. -/
theorem Reached.written {stage : Stage} {text : List Char} (h : Reached stage text) (hc : stage.isComplete) :
    ∃ kept, Written text kept := by
  cases h with
  | zero signs => exact ⟨_, by simpa using Written.mk signs .zero .absent .absent⟩
  | whole signs digits lead => exact ⟨_, by simpa using Written.mk signs (.digits digits lead) .absent .absent⟩
  | fraction signs wholes digits => exact ⟨_, by simpa using Written.mk signs wholes (.present digits) .absent⟩
  | power signs wholes fractions exponents present => exact ⟨_, .mk signs wholes fractions exponents⟩
  | minus | point _ _ | mark _ _ _ _ | sign _ _ _ _ _ => cases hc

private theorem Reached.run {stage last : Stage} {front back : List Char} (h : Reached stage front)
    (hb : reachFrom stage back = some last) : Reached last (front ++ back) := by
  induction back generalizing stage front with
  | nil =>
    cases hb
    simpa using h
  | cons c back ih =>
    simp only [reachFrom] at hb
    split at hb
    · rename_i next hc
      simpa using ih (h.step hc) hb
    · cases hb
    · cases hb

/-- A text that leads to a stage is what has been read there. -/
theorem reached_of_reach? {stage : Stage} {text : List Char} (h : reach? text = some stage) : Reached stage text := by
  cases text with
  | nil => cases h
  | cons c rest =>
    obtain ⟨first, hc, h⟩ := Option.bind_eq_some_iff.1 h
    exact (reached_start hc).run h

private theorem stored_append {front back : List Char} (h : ∀ c ∈ front, isMark c = false) :
    stored (front ++ back) = front ++ stored back := by
  induction front with
  | nil => rfl
  | cons c front ih =>
    have hc := h c (by simp)
    simp only [List.cons_append, stored, hc, Bool.false_eq_true, if_false]
    rw [ih (fun d hd => h d (by simp [hd]))]

private theorem isMark_of_digits {text : List Char} (h : ∀ c ∈ text, c.isDigit) : ∀ c ∈ text, isMark c = false := by
  intro c hc
  have he : c ≠ 'e' := digit_ne (h c hc) rfl
  have hE : c ≠ 'E' := digit_ne (h c hc) rfl
  simp [isMark, he, hE]

private theorem Whole.isMark {text : List Char} (h : Whole text) : ∀ c ∈ text, isMark c = false := by
  cases h with
  | zero => exact List.forall_mem_singleton.2 rfl
  | digits digits lead => exact isMark_of_digits digits.2

private theorem Fraction.isMark {text : List Char} (h : Fraction text) : ∀ c ∈ text, isMark c = false := by
  cases h with
  | absent => simp
  | present digits => exact List.forall_mem_cons.2 ⟨rfl, isMark_of_digits digits.2⟩

private theorem Exponent.stored {exponent kept : List Char} (h : Exponent exponent kept) :
    Numeral.stored exponent = kept := by
  cases h with
  | absent => rfl
  | unsigned marks digits =>
    obtain ⟨c, rest, rfl, hc, -⟩ := digits.eq_cons
    have hp : c ≠ '+' := digit_ne hc rfl
    have hq : c ≠ '-' := digit_ne hc rfl
    rcases marks with rfl | rfl <;> simp [Numeral.stored, Numeral.isMark, hp, hq]
  | signed marks signs digits => rcases marks with rfl | rfl <;> rcases signs with rfl | rfl <;> rfl

/-- A numeral is kept as the grammar says. -/
theorem Written.stored {text kept : List Char} (h : Written text kept) : Numeral.stored text = kept := by
  obtain ⟨signs, wholes, fractions, exponents⟩ := h
  rw [stored_append, exponents.stored]
  simp only [List.forall_mem_append]
  refine ⟨⟨?_, wholes.isMark⟩, fractions.isMark⟩
  rcases signs with rfl | rfl <;> simp [Numeral.isMark]

private theorem ascii_of_isDigit {c : Char} (h : c.isDigit) : c.toNat < 0x80 := by
  simp only [Char.isDigit, Bool.and_eq_true, decide_eq_true_eq, UInt32.le_iff_toNat_le, Char.toNat_val] at h
  have hle : c.toNat ≤ 57 := h.2
  omega

theorem ascii_of_start? {c : Char} {stage : Stage} (h : start? c = some stage) : c.toNat < 0x80 := by
  unfold start? at h
  split at h
  · rename_i hm
    exact hm ▸ by decide
  split at h
  · rename_i hz
    exact hz ▸ by decide
  split at h
  · rename_i hd
    exact ascii_of_isDigit hd
  · cases h

theorem ascii_of_next {stage next : Stage} {c : Char} (h : stage.next c = .more next) : c.toNat < 0x80 := by
  refine Decidable.byContradiction fun hc => ?_
  have hne (d : Char) (hd : d.toNat < 0x80) : c ≠ d := by
    rintro rfl
    exact hc hd
  have hdigit : c.isDigit = false := Bool.eq_false_iff.2 fun hd => hc (ascii_of_isDigit hd)
  cases stage <;>
    simp [Stage.next, isMark, hdigit, hne '0' (by decide), hne '.' (by decide), hne 'e' (by decide),
      hne 'E' (by decide), hne '+' (by decide), hne '-' (by decide)] at h

private theorem ascii_of_reachFrom {stage last : Stage} {text : List Char} (h : reachFrom stage text = some last) :
    ∀ c ∈ text, c.toNat < 0x80 := by
  induction text generalizing stage with
  | nil => simp
  | cons c text ih =>
    simp only [reachFrom] at h
    split at h
    · rename_i next hc
      exact List.forall_mem_cons.2 ⟨ascii_of_next hc, ih h⟩
    · cases h
    · cases h

/-- A numeral has no character above 127. -/
theorem Written.ascii {text kept : List Char} (h : Written text kept) : ∀ c ∈ text, c.toNat < 0x80 := by
  obtain ⟨last, hr, -⟩ := h.reaches
  cases text with
  | nil => cases hr
  | cons c rest =>
    obtain ⟨stage, hs, hr⟩ := Option.bind_eq_some_iff.1 hr
    exact List.forall_mem_cons.2 ⟨ascii_of_start? hs, ascii_of_reachFrom hr⟩

/-- The texts that are one numeral and nothing else are those of the grammar. -/
theorem fault?_eq_none_iff_written {text : List Char} : fault? text = none ↔ ∃ kept, Written text kept := by
  rw [fault?_eq_none_iff]
  constructor
  · rintro ⟨stage, h, hc⟩
    exact (reached_of_reach? h).written hc
  · rintro ⟨kept, h⟩
    exact h.reaches

end TypeSketch.Numeral
