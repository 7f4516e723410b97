import TypeSketch.Text.Casing

/-! What the tables of cases give for a code point: what an entry has for it, the place that a shift moves it to, or the code
point itself. A table is seen by its entries and the bounds of its shifts to leave a code point alone, or to give none that
it would give another one for. -/
namespace TypeSketch.CaseTable

/-- Below a bound only the front of a table counts if the rest begins at the bound. -/
theorem convert_below {expansions : List (Nat × List Nat)} {shifts : List Shift} {bound : Nat} (front : Nat)
    (he : expansions.all (bound ≤ ·.1)) (hs : (shifts.drop front).all (bound ≤ ·.first)) {code : Nat} (h : code < bound) :
    convert expansions shifts code = convert [] (shifts.take front) code := by
  rw [List.all_eq_true] at he hs
  have hexpansions : expansions.lookup code = none := by
    rw [List.lookup_eq_none_iff]
    intro entry hentry
    have hb := of_decide_eq_true (he entry hentry)
    simp only [bne_iff_ne]
    omega
  have hshifts : (shifts.drop front).find? (·.covers code) = none := by
    rw [List.find?_eq_none]
    intro shift hshift
    have hb := of_decide_eq_true (hs shift hshift)
    simp only [Shift.covers, Bool.and_eq_true, decide_eq_true_eq]
    omega
  have hfind : shifts.find? (·.covers code) = (shifts.take front).find? (·.covers code) := by
    rw [← List.take_append_drop front shifts, List.find?_append, hshifts, Option.or_none, List.take_append_drop]
  rw [convert, convert, hexpansions, hfind]
  rfl

def Shift.moved (shift : Shift) (code : Nat) : Nat := (code + shift.offset).toNat

/-- What a table gives for a code point. -/
theorem convert_cases (expansions : List (Nat × List Nat)) (shifts : List Shift) (code : Nat) :
    (∃ codes, (code, codes) ∈ expansions ∧ convert expansions shifts code = codes) ∨
      (∃ shift ∈ shifts, shift.covers code ∧ convert expansions shifts code = [shift.moved code]) ∨
      convert expansions shifts code = [code] := by
  unfold convert
  split
  · rename_i codes hl
    obtain ⟨front, back, rfl, -⟩ := List.lookup_eq_some_iff.1 hl
    exact .inl ⟨codes, List.mem_append_right front List.mem_cons_self, rfl⟩
  · split
    · rename_i shift hs
      exact .inr (.inl ⟨shift, List.mem_of_find?_eq_some hs, by simpa using List.find?_some hs, rfl⟩)
    · exact .inr (.inr rfl)

/-- A shift that does not move a code point, nor any other one there. -/
def Shift.avoids (shift : Shift) (code : Nat) : Bool :=
  !shift.covers code && (code < (shift.first + shift.offset).toNat || (shift.last + shift.offset).toNat < code)

/-- A code point that a table does not have and gives for no other one. -/
def untouched (expansions : List (Nat × List Nat)) (shifts : List Shift) (code : Nat) : Bool :=
  expansions.all (fun entry => entry.1 ≠ code && code ∉ entry.2) && shifts.all (·.avoids code)

private theorem Shift.avoids_moved {shift : Shift} {code other : Nat} (h : shift.avoids code) (hc : shift.covers other) :
    other ≠ code ∧ shift.moved other ≠ code := by
  rw [avoids, Bool.and_eq_true, Bool.not_eq_true', Bool.or_eq_true, decide_eq_true_iff, decide_eq_true_iff] at h
  constructor
  · rintro rfl
    rw [h.1] at hc
    cases hc
  · simp only [covers, Bool.and_eq_true, decide_eq_true_iff] at hc
    rw [moved]
    omega

/-- Converting gives an untouched code point for itself only. -/
theorem count_convert {expansions : List (Nat × List Nat)} {shifts : List Shift} {code : Nat}
    (h : untouched expansions shifts code) (other : Nat) :
    (convert expansions shifts other).count code = [other].count code := by
  rw [untouched, Bool.and_eq_true, List.all_eq_true, List.all_eq_true] at h
  have hne {codes : List Nat} (ho : other ≠ code) (hc : code ∉ codes) : codes.count code = [other].count code := by
    rw [List.count_eq_zero.2 hc, List.count_eq_zero.2 (by simpa using ho.symm)]
  rcases convert_cases expansions shifts other with ⟨codes, hentry, hc⟩ | ⟨shift, hshift, hcovers, hc⟩ | hc
  · obtain ⟨ho, hm⟩ : other ≠ code ∧ code ∉ codes := by simpa using h.1 _ hentry
    rw [hc, hne ho hm]
  · obtain ⟨ho, hm⟩ := Shift.avoids_moved (h.2 shift hshift) hcovers
    rw [hc, hne ho (by simpa using hm.symm)]
  · rw [hc]

/-- If no entry is empty, every code point has a counterpart. -/
theorem convert_ne_nil {expansions : List (Nat × List Nat)} (h : expansions.all (·.2 ≠ [])) (shifts : List Shift)
    (code : Nat) : convert expansions shifts code ≠ [] := by
  rw [List.all_eq_true] at h
  rcases convert_cases expansions shifts code with ⟨codes, hentry, hc⟩ | ⟨shift, -, -, hc⟩ | hc
  · rw [hc]
    exact of_decide_eq_true (h _ hentry)
  · rw [hc]
    exact List.cons_ne_nil _ _
  · rw [hc]
    exact List.cons_ne_nil _ _

def Shift.codes (shift : Shift) : List Nat :=
  List.range' shift.first ((shift.last - shift.first) / shift.stride + 1) shift.stride

private theorem Shift.mem_codes {shift : Shift} {code : Nat} (h : shift.covers code) : code ∈ shift.codes := by
  simp only [covers, Bool.and_eq_true, decide_eq_true_iff] at h
  have hsteps := Nat.div_add_mod (code - shift.first) shift.stride
  have hbound : (code - shift.first) / shift.stride ≤ (shift.last - shift.first) / shift.stride :=
    Nat.div_le_div_right (by omega)
  exact List.mem_range'.2 ⟨(code - shift.first) / shift.stride, by omega, by omega⟩

/-- A shift that moves no code point to where another one covers it. Most pairs are told apart by their bounds. -/
def Shift.misses (shift other : Shift) : Bool :=
  Nat.blt other.last (shift.moved shift.first) || Nat.blt (shift.moved shift.last) other.first ||
    shift.codes.all fun code => !other.covers (shift.moved code)

private theorem Shift.not_covers_moved {shift other : Shift} (h : shift.misses other) {code : Nat} (hc : shift.covers code) :
    ¬ other.covers (shift.moved code) := by
  rw [misses, Bool.or_eq_true, Bool.or_eq_true, Nat.blt_eq, Nat.blt_eq, List.all_eq_true] at h
  rcases h with h | h
  · simp only [covers, Bool.and_eq_true, decide_eq_true_iff] at hc ⊢
    rintro ⟨⟨hfirst, hlast⟩, -⟩
    simp only [moved] at h hfirst hlast
    omega
  · simpa using h code (mem_codes hc)

def keeps (expansions : List (Nat × List Nat)) (shifts : List Shift) (code : Nat) : Bool :=
  expansions.all (·.1 ≠ code) && shifts.all (!·.covers code)

/-- A table that has no code point which it gives for another one. -/
def settles (expansions : List (Nat × List Nat)) (shifts : List Shift) : Bool :=
  expansions.all (fun entry => entry.2.all (keeps expansions shifts) && shifts.all (·.avoids entry.1)) &&
    shifts.all fun shift => shifts.all shift.misses

section
variable {expansions : List (Nat × List Nat)} {shifts : List Shift}

/-- A code point that a table does not have is left as it is. -/
theorem convert_of_keeps {code : Nat} (h : keeps expansions shifts code) : convert expansions shifts code = [code] := by
  rw [keeps, Bool.and_eq_true, List.all_eq_true, List.all_eq_true] at h
  have hexpansions : expansions.lookup code = none := by
    rw [List.lookup_eq_none_iff]
    intro entry hentry
    have hne := of_decide_eq_true (h.1 entry hentry)
    simpa using hne.symm
  have hshifts : shifts.find? (·.covers code) = none := by
    rw [List.find?_eq_none]
    intro shift hshift
    simpa using h.2 shift hshift
  rw [convert, hexpansions, hshifts]

/-- Converting twice gives what converting once does. -/
theorem convert_of_mem_convert (h : settles expansions shifts) {code other : Nat}
    (hm : other ∈ convert expansions shifts code) : convert expansions shifts other = [other] := by
  simp only [settles, Bool.and_eq_true, List.all_eq_true] at h
  obtain ⟨hexpansions, hshifts⟩ := h
  rcases convert_cases expansions shifts code with ⟨codes, hentry, hc⟩ | ⟨shift, hshift, hcovers, hc⟩ | hc
  · rw [hc] at hm
    exact convert_of_keeps ((hexpansions _ hentry).1 other hm)
  · have hkeeps : keeps expansions shifts (shift.moved code) := by
      simp only [keeps, Bool.and_eq_true, List.all_eq_true]
      refine ⟨fun entry he => ?_, fun next hn => ?_⟩
      · have hne := (Shift.avoids_moved ((hexpansions entry he).2 shift hshift) hcovers).2
        exact decide_eq_true hne.symm
      · simpa using Shift.not_covers_moved (hshifts shift hshift next hn) hcovers
    rw [hc, List.mem_singleton] at hm
    rw [hm, convert_of_keeps hkeeps]
  · rw [hc, List.mem_singleton] at hm
    rw [hm, hc]

end

end TypeSketch.CaseTable
